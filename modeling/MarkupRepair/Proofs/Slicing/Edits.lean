import MarkupRepair.Proofs.Repair.Edits
import MarkupRepair.Proofs.Repair.Place
import MarkupRepair.Proofs.Slicing.Scanning

/-!
# Slicing at the place of a fix

A fix with a place is tried at an offset of the text: it slices the text there, and what it finds to
be exchanged is a stretch between two places. So the stretch can be cut out, and the text that comes
of it is the one that the fix makes.
-/

namespace MarkupRepair

namespace Text

/-- Exchanging the middle of three parts by slices. -/
theorem spliceCut_append (a b c r : Text) :
    spliceCut (a ++ (b ++ c)) ⟨size a, size a + size b⟩ r = .ok (a ++ r ++ c) := by
  have hrest := cut_from (a ++ b) c
  rw [List.append_assoc, size_append] at hrest
  rw [spliceCut, cut_upTo, Sliced.ok_bind, hrest]
  rfl

/-- A stretch that can be cut out behind a place begins what is behind the place. -/
theorem slice?_append_iff {a b w : Text} :
    slice? (a ++ b) ⟨size a, size a + size w⟩ = some w ↔ w <+: b := by
  rw [slice?_eq_some_iff]
  constructor
  · rintro ⟨a', c, heq, hspan⟩
    obtain ⟨rfl, rfl⟩ := append_inj_of_size heq (Span.mk.inj hspan).1
    exact List.prefix_append w c
  · rintro ⟨c, rfl⟩
    exact ⟨a, c, rfl, rfl⟩

end Text

namespace Fix

open Text (size)

/-- The offset behind the `=` of an assignment at a place. -/
def assignmentSliced (t : Text) (place : Nat) (name : Text) : Sliced (Option Nat) :=
  match t.from? place with
  | none => .ok none
  | some after =>
      if Text.startsWith after name then do
        let front ← t.cut ⟨0, place⟩
        if front.getLast?.any isWhiteSpace then
          let afterName ← after.cut ⟨Text.size name, Text.size after⟩
          match trimStart afterName with
          | '=' :: rest => return some (Text.size t - Text.size rest)
          | _ => return none
        else return none
      else .ok none

/-- Quote the value of an attribute at a place. -/
def quoteSliced (name value t : Text) (place : Nat) : Sliced (Option (Span × Text)) := do
  match ← assignmentSliced t place name with
  | none => return none
  | some afterEquals =>
      let rest ← t.cut ⟨afterEquals, Text.size t⟩
      let start := if value.head?.any fun c => c == '"' || c == '\'' then
        afterEquals + (Text.size rest - Text.size (trimStart rest)) else afterEquals
      let stop := start + Text.size value
      if t.slice? ⟨start, stop⟩ = some value then
        let tail ← t.cut ⟨stop, Text.size t⟩
        return if endsValue tail then some (⟨start, stop⟩, requote value) else none
      else return none

/-- Reduce the run of double quotes in front of an attribute value at a place. -/
def collapseSliced (name : Text) (quotes : Nat) (t : Text) (place : Nat) :
    Sliced (Option (Span × Text)) := do
  match ← assignmentSliced t place name with
  | none => return none
  | some afterEquals =>
      let rest ← t.cut ⟨afterEquals, Text.size t⟩
      let start := afterEquals + (Text.size rest - Text.size (trimStart rest))
      let written ← t.cut ⟨start, Text.size t⟩
      let run := (written.takeWhile (· == '"')).length
      if run = quotes then
        let tail ← t.cut ⟨start + run, Text.size t⟩
        return some (⟨start, start + run⟩, if noValue tail then ['"', '"'] else ['"'])
      else return none

/-- Complete an entity reference at a place. -/
def terminateSliced (entity t : Text) (place : Nat) : Sliced (Option (Span × Text)) :=
  match t.from? place with
  | none => .ok none
  | some after =>
      if Text.startsWith after entity then do
        let stop := place + Text.size entity
        let tail ← t.cut ⟨stop, Text.size t⟩
        if entity = ['&'] then
          return if tail.head?.any isEntityNameChar then none
            else some (⟨place, stop⟩, "&amp;".toList)
        else
          return if tail.head?.any fun c => isEntityNameChar c || c == ';' then none
            else some (⟨stop, stop⟩, [';'])
      else .ok none

/-- Write a self-closing tag at a place as an opening and a closing tag. -/
def expandSliced (name t : Text) (place : Nat) : Sliced (Option (Span × Text)) :=
  match t.from? place with
  | none => .ok none
  | some after =>
      match TagText.atStart? after with
      | none => .ok none
      | some tag => do
          let (written, body) ← tag.sliced after 0
          return if tag.kind = .selfClosing && Text.toLowerAscii written == Text.toLowerAscii name
            then some (⟨place, place + tag.size⟩,
              '<' :: (written ++ trimEnd body ++ ['>', '<', '/'] ++ written ++ ['>']))
            else none

/-- What a fix with a place exchanges when it is tried at an offset. -/
def editSliced (fix : Fix) (t : Text) (place : Nat) : Sliced (Option (Span × Text)) :=
  match fix with
  | .quoteAttribute _ name value => quoteSliced name value t place
  | .collapseQuotes _ name quotes => collapseSliced name quotes t place
  | .terminateEntity _ entity => terminateSliced entity t place
  | .expandSelfClosing _ tag => expandSliced tag t place
  | _ => .ok none

/-- The first edit that is found at one of some offsets. -/
def firstEdit (edit : Nat → Sliced (Option (Span × Text))) :
    List Nat → Sliced (Option (Span × Text))
  | [] => .ok none
  | place :: later => do
      match ← edit place with
      | some found => return some found
      | none => firstEdit edit later

/-- Change the text at the first candidate place that a fix recognises, by slices. -/
def applyInLineSliced (fix : Fix) (p : Position) (t : Text) : Sliced (Option Text) := do
  match ← firstEdit (fix.editSliced t) ((candidates t p).map (·.offset)) with
  | some (span, replacement) => return some (← t.spliceCut span replacement)
  | none => return none

/-- Whether what an edit exchanges makes a text of another one. -/
inductive Makes (t : Text) : Option (Span × Text) → Option Text → Prop where
  /-- Nothing is exchanged. -/
  | nothing : Makes t none none
  /-- A stretch is cut out. -/
  | splice {span : Span} {replacement next : Text}
      (h : t.spliceCut span replacement = .ok next) : Makes t (some (span, replacement)) (some next)

/-- Whether an edit slices nothing that fails and makes a text. -/
def Yields (edit : Sliced (Option (Span × Text))) (t : Text) (outcome : Option Text) : Prop :=
  ∃ found, edit = .ok found ∧ Makes t found outcome

theorem yields_none (t : Text) : Yields (.ok none) t none := ⟨none, rfl, .nothing⟩

/-- An edit that exchanges the middle of three parts. -/
theorem yields_splice (a b c r : Text) :
    Yields (.ok (some (⟨Text.size a, Text.size a + Text.size b⟩, r))) (a ++ (b ++ c))
      (some (a ++ r ++ c)) :=
  ⟨_, rfl, .splice (Text.spliceCut_append a b c r)⟩

/-- The offset behind an assignment is found by slices. -/
theorem assignmentSliced_eq_ok (front after name : Text) :
    assignmentSliced (front ++ after) (size front) name =
      .ok ((assignment? front.getLast? after name).map fun found => size (front ++ found.1)) := by
  rw [assignmentSliced, Text.from?_append, assignment?]
  dsimp only
  cases hafter : Text.afterPrefix? name after with
  | none =>
      rw [if_neg (by simp [Text.startsWith, hafter])]
      split <;> rfl
  | some rest =>
      obtain rfl := Text.afterPrefix?_eq_some_iff.mp hafter
      rw [if_pos (by simp [Text.startsWith, hafter]), Text.cut_upTo, Sliced.ok_bind]
      split
      next =>
        have hrest := takeWhile_append_trimStart rest
        rw [Text.cut_from, Sliced.ok_bind]
        dsimp only
        generalize trimStart rest = written at hrest ⊢
        split
        next r =>
          have hsize : size (front ++ (name ++ rest)) - size r =
              size (front ++ (name ++ rest.takeWhile isWhiteSpace ++ ['='])) := by
            have hsize := congrArg size hrest
            simp only [Text.size_append, Text.size_cons, Text.size_nil] at hsize ⊢
            omega
          rw [hsize]
          rfl
        next => simp
      next => rfl

/-- Quoting the value of an attribute exchanges the value. -/
theorem yields_quoteSliced (front after name value : Text) :
    Yields (quoteSliced name value (front ++ after) (size front)) (front ++ after)
      ((quoteAt name value front.getLast? after).map (front ++ ·)) := by
  rw [quoteSliced, assignmentSliced_eq_ok, Sliced.ok_bind, quoteAt]
  cases hassignment : assignment? front.getLast? after name with
  | none => exact yields_none _
  | some found =>
      obtain ⟨assignment, rest⟩ := found
      obtain ⟨rfl, -⟩ := eq_append_of_assignment? hassignment
      dsimp only [Option.map_some]
      rw [← List.append_assoc, Text.cut_from, Sliced.ok_bind, Text.size_sub_size_trimStart]
      set gap : Text := if value.head?.any fun c => c == '"' || c == '\'' then
        rest.takeWhile isWhiteSpace else [] with hgap
      have hrest : gap ++ rest.drop gap.length = rest := append_drop_gap _ rest
      have hstart : (if (value.head?.any fun c => c == '"' || c == '\'') = true then
          size (front ++ assignment) + size (rest.takeWhile isWhiteSpace)
            else size (front ++ assignment)) = size (front ++ assignment ++ gap) := by
        rw [hgap, Text.size_append (front ++ assignment)]
        split <;> rfl
      have hparts : front ++ assignment ++ rest =
          front ++ assignment ++ gap ++ rest.drop gap.length := by
        rw [List.append_assoc _ gap, hrest]
      rw [hstart, hparts]
      simp only [Text.slice?_append_iff]
      cases htail : Text.afterPrefix? value (rest.drop gap.length) with
      | none =>
          rw [if_neg]
          · exact yields_none _
          · rintro ⟨tail, heq⟩
            rw [Text.afterPrefix?_eq_some_iff.mpr heq.symm] at htail
            cases htail
      | some tail =>
          have hvalue := Text.afterPrefix?_eq_some_iff.mp htail
          have hcut := Text.cut_from (front ++ assignment ++ gap ++ value) tail
          rw [List.append_assoc _ value, Text.size_append _ value] at hcut
          rw [hvalue, if_pos (List.prefix_append value tail), hcut, Sliced.ok_bind]
          dsimp only
          split
          next =>
            have hyields := yields_splice (front ++ assignment ++ gap) value tail (requote value)
            simpa using hyields
          next => exact yields_none _

/-- Reducing a run of double quotes exchanges the run. -/
theorem yields_collapseSliced (front after name : Text) (quotes : Nat) :
    Yields (collapseSliced name quotes (front ++ after) (size front)) (front ++ after)
      ((collapseAt name quotes front.getLast? after).map (front ++ ·)) := by
  rw [collapseSliced, assignmentSliced_eq_ok, Sliced.ok_bind, collapseAt]
  cases hassignment : assignment? front.getLast? after name with
  | none => exact yields_none _
  | some found =>
      obtain ⟨assignment, rest⟩ := found
      obtain ⟨rfl, -⟩ := eq_append_of_assignment? hassignment
      dsimp only [Option.map_some]
      set gap := rest.takeWhile isWhiteSpace
      set run := (trimStart rest).takeWhile (· == '"')
      set tail := (trimStart rest).drop run.length
      have hwritten : trimStart rest = run ++ tail :=
        (List.prefix_iff_eq_append.mp (List.takeWhile_prefix _)).symm
      have hrest : rest = gap ++ (run ++ tail) := by
        rw [← hwritten, takeWhile_append_trimStart]
      have hsize : size run = run.length := Text.size_of_forall_eq rfl fun c hc =>
        beq_iff_eq.mp (List.mem_takeWhile_imp (p := fun c => c == '"') hc)
      have hwhole := Text.cut_from (front ++ assignment) rest
      have hbehind := Text.cut_from (front ++ assignment ++ gap) (run ++ tail)
      have hafter := Text.cut_from (front ++ assignment ++ gap ++ run) tail
      have hyields := yields_splice (front ++ assignment ++ gap) run tail
        (if noValue tail then ['"', '"'] else ['"'])
      rw [List.append_assoc _ gap, ← hrest, Text.size_append _ gap] at hbehind
      rw [List.append_assoc _ run, List.append_assoc _ gap, ← hrest, Text.size_append _ run,
        Text.size_append _ gap, hsize] at hafter
      rw [List.append_assoc _ gap, ← hrest, Text.size_append _ gap, hsize] at hyields
      rw [← List.append_assoc, hwhole, Sliced.ok_bind, Text.size_sub_size_trimStart, hbehind,
        Sliced.ok_bind, ← hwritten]
      split
      next =>
        rw [hafter, Sliced.ok_bind]
        simpa using hyields
      next => exact yields_none _

/-- Completing a reference inserts after it or exchanges it. -/
theorem yields_terminateSliced (front after entity : Text) :
    Yields (terminateSliced entity (front ++ after) (size front)) (front ++ after)
      ((terminateAt entity after).map (front ++ ·)) := by
  rw [terminateSliced, Text.from?_append, terminateAt]
  dsimp only
  cases hafter : Text.afterPrefix? entity after with
  | none =>
      rw [if_neg (by simp [Text.startsWith, hafter])]
      exact yields_none _
  | some tail =>
      obtain rfl := Text.afterPrefix?_eq_some_iff.mp hafter
      have hcut := Text.cut_from (front ++ entity) tail
      rw [List.append_assoc, Text.size_append front entity] at hcut
      rw [if_pos (by simp [Text.startsWith, hafter]), hcut, Sliced.ok_bind]
      dsimp only
      split
      next hentity =>
        split
        next => exact yields_none _
        next =>
          have hyields := yields_splice front entity tail "&amp;".toList
          simpa using hyields
      next =>
        split
        next => exact yields_none _
        next =>
          have hyields := yields_splice (front ++ entity) [] tail [';']
          simpa using hyields

/-- Expanding exchanges a self-closing tag. -/
theorem yields_expandSliced (front after name : Text) :
    Yields (expandSliced name (front ++ after) (size front)) (front ++ after)
      ((expandAt name after).map (front ++ ·)) := by
  rw [expandSliced, Text.from?_append, expandAt]
  dsimp only
  cases htag : TagText.atStart? after with
  | none => exact yields_none _
  | some tag =>
      dsimp only
      rw [TagText.sliced_of_atStart? htag, Sliced.ok_bind]
      obtain ⟨rest, rfl⟩ := TagText.exists_toText_append htag
      dsimp only
      split
      next =>
        have hyields := yields_splice front tag.toText rest
          ('<' :: (tag.name ++ trimEnd tag.body ++ ['>', '<', '/'] ++ tag.name ++ ['>']))
        simpa [TagText.size] using hyields
      next => exact yields_none _

/-- What a fix with a place exchanges at an offset makes the text that its edit there makes. -/
theorem yields_editSliced (fix : Fix) (front after : Text) :
    Yields (fix.editSliced (front ++ after) (size front)) (front ++ after)
      ((fix.editAt front.getLast? after).map (front ++ ·)) := by
  cases fix with
  | quoteAttribute p name value => exact yields_quoteSliced front after name value
  | collapseQuotes p name quotes => exact yields_collapseSliced front after name quotes
  | terminateEntity p entity => exact yields_terminateSliced front after entity
  | expandSelfClosing p tag => exact yields_expandSliced front after tag
  | _ => exact yields_none _

/-- The first edit at the offsets of some places of a text makes what it makes at the first place
where it makes anything. -/
theorem yields_firstEdit (fix : Fix) (t : Text) {places : List Cursor}
    (h : ∀ c ∈ places, c ∈ cursors t) :
    Yields (firstEdit (fix.editSliced t) (places.map (·.offset))) t
      (places.findSome? fun c =>
        (fix.editAt c.before c.after).map (Text.takeBytes c.offset t ++ ·)) := by
  induction places with
  | nil => exact yields_none t
  | cons c places ih =>
      rw [List.forall_mem_cons] at h
      obtain ⟨front, ht, hoffset, hbefore⟩ := exists_of_mem_cursors h.1
      obtain ⟨found, hedit, hmakes⟩ := yields_editSliced fix front c.after
      have htake : Text.takeBytes c.offset t = front := by
        rw [hoffset, ht, Text.takeBytes_size_append]
      rw [← hoffset, ← ht] at hedit
      rw [← ht, ← hbefore, ← htake] at hmakes
      rw [List.map_cons, firstEdit, hedit, Sliced.ok_bind, List.findSome?_cons]
      generalize (fix.editAt c.before c.after).map (Text.takeBytes c.offset t ++ ·) = made
        at hmakes ⊢
      cases hmakes with
      | nothing => exact ih h.2
      | splice hsplice => exact ⟨_, rfl, .splice hsplice⟩

/-- A fix with a place slices nothing that fails. -/
theorem applyInLineSliced_eq_ok (fix : Fix) (p : Position) (t : Text) :
    fix.applyInLineSliced p t = .ok (fix.applyInLine p t) := by
  obtain ⟨found, hfirst, hmakes⟩ :=
    yields_firstEdit fix t fun _ => mem_cursors_of_mem_candidates (p := p)
  rw [applyInLineSliced, hfirst, Sliced.ok_bind]
  change _ = Except.ok ((candidates t p).findSome? _)
  generalize (candidates t p).findSome? _ = made at hmakes ⊢
  cases hmakes with
  | nothing => rfl
  | splice hsplice =>
      dsimp only
      rw [hsplice]
      rfl

end Fix

end MarkupRepair
