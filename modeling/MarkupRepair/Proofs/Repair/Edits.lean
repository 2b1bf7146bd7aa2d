import Mathlib.Data.List.TakeWhile
import MarkupRepair.Proofs.Markup.Entity
import MarkupRepair.Proofs.Markup.Extent
import MarkupRepair.Repair.Fix

/-!
# What an edit at a place does

A fix with a place that recognises the text after the place splits it into what it keeps and what
it exchanges. One statement for each fix says where the text is split and what is put in, whatever
place it is.
-/

namespace MarkupRepair

namespace Fix

variable {before : Option Char} {after changed name value rest assignment entity : Text}

/-- A text that begins with an assignment is the name, white space and `=`, and what follows. -/
theorem eq_append_of_assignment? (h : assignment? before after name = some (assignment, rest)) :
    after = assignment ++ rest ∧ before.any isWhiteSpace = true ∧
      ∃ space, assignment = name ++ space ++ ['='] ∧ ∀ c ∈ space, isWhiteSpace c = true := by
  unfold assignment? at h
  split at h
  next hbefore =>
    split at h
    next tail hafter =>
      have htail := takeWhile_append_trimStart tail
      split at h
      next r hequals =>
        obtain ⟨rfl, rfl⟩ := Prod.mk.inj (Option.some.inj h)
        rw [hequals] at htail
        rw [Text.afterPrefix?_eq_some_iff.mp hafter]
        refine ⟨?_, hbefore, _, rfl, fun c hc => List.mem_takeWhile_imp hc⟩
        nth_rewrite 1 [← htail]
        simp
      next => cases h
    next => cases h
  next => cases h

/-- A text is the white space that may stand in front of a value, or none, and what follows. -/
theorem append_drop_gap (p : Prop) [Decidable p] (t : Text) :
    (if p then t.takeWhile isWhiteSpace else []) ++
      t.drop (if p then t.takeWhile isWhiteSpace else []).length = t := by
  rw [← List.prefix_iff_eq_append]
  split
  · exact List.takeWhile_prefix _
  · exact List.nil_prefix

/-- Quoting exchanges a value after the name, an `=` and a gap. -/
theorem exists_of_quoteAt (h : quoteAt name value before after = some changed) :
    ∃ space gap tail, after = name ++ space ++ '=' :: gap ++ (value ++ tail) ∧
      changed = name ++ space ++ '=' :: gap ++ (requote value ++ tail) ∧
      before.any isWhiteSpace = true ∧ (∀ c ∈ space, isWhiteSpace c = true) ∧
      ∀ c ∈ gap, isWhiteSpace c = true := by
  unfold quoteAt at h
  split at h
  next assignment rest hassignment =>
    obtain ⟨rfl, hbefore, space, rfl, hspace⟩ := eq_append_of_assignment? hassignment
    have hrest := append_drop_gap ((value.head?.any fun c => c == '"' || c == '\'') = true) rest
    dsimp only at h
    generalize hgap : (if (value.head?.any fun c => c == '"' || c == '\'') = true then
      rest.takeWhile isWhiteSpace else []) = gap at h hrest
    have hblank : ∀ c ∈ gap, isWhiteSpace c = true := by
      intro c hc
      rw [← hgap] at hc
      split at hc
      · exact List.mem_takeWhile_imp hc
      · cases hc
    split at h
    next tail htail =>
      split at h
      next =>
        obtain rfl := Option.some.inj h
        refine ⟨space, gap, tail, ?_, by simp, hbefore, hspace, hblank⟩
        rw [← hrest, Text.afterPrefix?_eq_some_iff.mp htail]
        simp
      next => cases h
    next => cases h
  next => cases h

/-- Collapsing exchanges a run of double quotes after the name, an `=` and a gap. -/
theorem exists_of_collapseAt {quotes : Nat}
    (h : collapseAt name quotes before after = some changed) :
    ∃ space gap run tail, after = name ++ space ++ '=' :: gap ++ (run ++ tail) ∧
      changed = name ++ space ++ '=' :: gap ++
        ((if noValue tail then ['"', '"'] else ['"']) ++ tail) ∧
      before.any isWhiteSpace = true ∧ (∀ c ∈ space, isWhiteSpace c = true) ∧
      (∀ c ∈ gap, isWhiteSpace c = true) ∧ ∀ c ∈ run, c = '"' := by
  unfold collapseAt at h
  split at h
  next assignment rest hassignment =>
    obtain ⟨rfl, hbefore, space, rfl, hspace⟩ := eq_append_of_assignment? hassignment
    dsimp only at h
    split at h
    next =>
      obtain rfl := Option.some.inj h
      have hrest := takeWhile_append_trimStart rest
      have hrun := List.prefix_iff_eq_append.mp
        (List.takeWhile_prefix (l := trimStart rest) (· == '"'))
      refine ⟨space, rest.takeWhile isWhiteSpace, (trimStart rest).takeWhile (· == '"'),
        (trimStart rest).drop ((trimStart rest).takeWhile (· == '"')).length, ?_, by simp,
        hbefore, hspace, fun c hc => List.mem_takeWhile_imp hc, fun c hc => ?_⟩
      · rw [hrun]
        nth_rewrite 1 [← hrest]
        simp
      · exact beq_iff_eq.mp (List.mem_takeWhile_imp (p := fun c => c == '"') hc)
    next => cases h
  next => cases h

/-- Completing a reference inserts after it, where no name goes on. -/
theorem exists_of_terminateAt (h : terminateAt entity after = some changed) :
    ∃ completion tail, after = entity ++ tail ∧ changed = entity ++ (completion ++ tail) ∧
      completion = (if entity = ['&'] then "amp;".toList else [';']) ∧
      tail.head?.any isEntityNameChar = false ∧
      (entity ≠ ['&'] → tail.head? ≠ some ';') := by
  unfold terminateAt at h
  split at h
  next tail htail =>
    rw [Text.afterPrefix?_eq_some_iff.mp htail]
    split at h
    next hentity =>
      split at h
      next => cases h
      next hname =>
        obtain rfl := Option.some.inj h
        refine ⟨_, tail, rfl, ?_, rfl, Bool.eq_false_iff.mpr hname, fun hne => absurd hentity hne⟩
        rw [if_pos hentity, hentity]
        rfl
    next hentity =>
      split at h
      next => cases h
      next hname =>
        obtain rfl := Option.some.inj h
        refine ⟨_, tail, rfl, by rw [if_neg hentity]; rfl, rfl, ?_, fun _ => ?_⟩
        · cases tail with
          | nil => rfl
          | cons c r => simp_all
        · cases tail with
          | nil => simp
          | cons c r => simp_all
  next => cases h

/-- Expanding exchanges a self-closing tag. -/
theorem exists_of_expandAt (h : expandAt name after = some changed) :
    ∃ tag rest, TagText.atStart? after = some tag ∧ tag.kind = .selfClosing ∧
      after = tag.toText ++ rest ∧
      changed = '<' :: (tag.name ++ trimEnd tag.body ++ ['>', '<', '/'] ++ tag.name ++ ['>']) ++
        rest := by
  unfold expandAt at h
  split at h
  next tag htag =>
    split at h
    next hkind =>
      obtain rfl := Option.some.inj h
      obtain ⟨rest, rfl⟩ := TagText.exists_toText_append htag
      rw [Bool.and_eq_true, decide_eq_true_eq] at hkind
      exact ⟨tag, rest, htag, hkind.1, rfl, by simp⟩
    next => cases h
  next => cases h

/-- A tag is expanded only when it has the name that is looked for. -/
theorem name_of_expandAt {tag : TagText}
    (h : expandAt name after = some changed) (htag : TagText.atStart? after = some tag) :
    Text.toLowerAscii tag.name = Text.toLowerAscii name := by
  unfold expandAt at h
  rw [htag] at h
  dsimp only at h
  split at h
  next hname =>
    rw [Bool.and_eq_true] at hname
    exact eq_of_beq hname.2
  next => cases h

section Assigned

variable {space gap : Text}

/-- An assignment and the gap after it have no characters but those of the name, white space and
`=`. -/
theorem not_mem_assignment {c : Char} (hname : c ∉ name)
    (hspace : ∀ c ∈ space, isWhiteSpace c = true) (hgap : ∀ c ∈ gap, isWhiteSpace c = true)
    (hblank : isWhiteSpace c = false) (hequals : c ≠ '=') :
    c ∉ name ++ space ++ '=' :: gap := by
  simp [hname, not_mem_of_class hspace hblank, not_mem_of_class hgap hblank, hequals]

/-- A name and `=` with nothing but white space between them are an assignment. -/
theorem assignment?_append (hbefore : before.any isWhiteSpace = true)
    (hspace : ∀ c ∈ space, isWhiteSpace c = true) (name rest : Text) :
    assignment? before (name ++ space ++ '=' :: rest) name =
      some (name ++ space ++ ['='], rest) := by
  have hname :
      Text.afterPrefix? name (name ++ space ++ '=' :: rest) = some (space ++ '=' :: rest) :=
    Text.afterPrefix?_eq_some_iff.mpr (by rw [List.append_assoc])
  have hequals : isWhiteSpace '=' = false := by
    decide
  simp only [assignment?, hbefore, if_true, hname, trimStart, takeWhile_append_cons hspace hequals,
    dropWhile_append_cons hspace hequals]

/-- A value is quoted when it can end where it does; white space stands before it only if it begins
with a quote. -/
theorem quoteAt_append (hbefore : before.any isWhiteSpace = true)
    (hspace : ∀ c ∈ space, isWhiteSpace c = true) (hgap : ∀ c ∈ gap, isWhiteSpace c = true)
    (hquote : gap ≠ [] → (value.head?.any fun c => c == '"' || c == '\'') = true)
    (hend : endsValue rest = true) :
    quoteAt name value before (name ++ space ++ '=' :: (gap ++ (value ++ rest))) =
      some (name ++ space ++ '=' :: (gap ++ (requote value ++ rest))) := by
  have htake : (if (value.head?.any fun c => c == '"' || c == '\'') = true then
      (gap ++ (value ++ rest)).takeWhile isWhiteSpace else []) = gap := by
    split
    next hquoted =>
      cases value with
      | nil => cases hquoted
      | cons c value =>
          rw [List.head?_cons, Option.any_some, Bool.or_eq_true, beq_iff_eq, beq_iff_eq] at hquoted
          refine takeWhile_append_cons hgap ?_
          rcases hquoted with rfl | rfl <;> decide
    next hplain =>
      by_contra hne
      exact hplain (hquote (Ne.symm hne))
  have hvalue : Text.afterPrefix? value (value ++ rest) = some rest :=
    Text.afterPrefix?_eq_some_iff.mpr rfl
  simp only [quoteAt, assignment?_append hbefore hspace, htake, List.drop_left, hvalue, hend,
    if_true]
  simp

/-- A run of quotes after `=` and white space is collapsed. -/
theorem collapseAt_append {run : Text} (hbefore : before.any isWhiteSpace = true)
    (hspace : ∀ c ∈ space, isWhiteSpace c = true) (hgap : ∀ c ∈ gap, isWhiteSpace c = true)
    (hrun : ∀ c ∈ run, c = '"') (hne : run ≠ []) (hrest : rest.head? ≠ some '"') :
    collapseAt name run.length before (name ++ space ++ '=' :: (gap ++ (run ++ rest))) =
      some (name ++ space ++
        '=' :: (gap ++ ((if noValue rest then ['"', '"'] else ['"']) ++ rest))) := by
  have hall : ∀ c ∈ run, (c == '"') = true := fun c hc => beq_iff_eq.mpr (hrun c hc)
  have hstart : (gap ++ (run ++ rest)).takeWhile isWhiteSpace = gap ∧
      trimStart (gap ++ (run ++ rest)) = run ++ rest := by
    cases run with
    | nil => exact absurd rfl hne
    | cons c run =>
        obtain rfl := hrun c List.mem_cons_self
        have hquote : isWhiteSpace '"' = false := by
          decide
        exact ⟨takeWhile_append_cons hgap hquote, dropWhile_append_cons hgap hquote⟩
  have htake : (run ++ rest).takeWhile (· == '"') = run := by
    rw [List.takeWhile_append_of_pos hall]
    cases rest with
    | nil => simp
    | cons d rest =>
        rw [List.takeWhile_cons_of_neg (by simpa using hrest), List.append_nil]
  simp only [collapseAt, assignment?_append hbefore hspace, hstart, htake, if_true, List.drop_left]
  simp

end Assigned

/-- A reference that is not terminated is completed after its name. -/
theorem terminateAt_append (hname : rest.head?.any isEntityNameChar = false)
    (hsemicolon : name ≠ [] → rest.head? ≠ some ';') :
    terminateAt ('&' :: name) ('&' :: (name ++ rest)) =
      some ('&' :: (name ++ ((if name = [] then "amp;".toList else [';']) ++ rest))) := by
  have hafter : Text.afterPrefix? ('&' :: name) ('&' :: (name ++ rest)) = some rest :=
    Text.afterPrefix?_eq_some_iff.mpr rfl
  unfold terminateAt
  rw [hafter]
  cases name with
  | nil => simp [hname]
  | cons c name =>
      have hsemicolon := hsemicolon (List.cons_ne_nil c name)
      have hstop : (rest.head?.any fun c => isEntityNameChar c || c == ';') = false := by
        cases rest with
        | nil => rfl
        | cons d rest => simp_all
      simp [hstop]

/-- A self-closing tag of the name is expanded. -/
theorem expandAt_append {tag : TagText} (htag : TagText.atStart? (tag.toText ++ rest) = some tag)
    (hkind : tag.kind = .selfClosing)
    (hname : Text.toLowerAscii tag.name = Text.toLowerAscii name) :
    expandAt name (tag.toText ++ rest) =
      some ('<' :: (tag.name ++ trimEnd tag.body ++ ['>', '<', '/'] ++ tag.name ++ ['>']) ++
        rest) := by
  simp [expandAt, htag, hkind, hname]

end Fix

end MarkupRepair
