import MarkupRepair.Proofs.Text.Lines
import MarkupRepair.Proofs.Text.Parts
import MarkupRepair.Repair.Fix

/-!
# Fixes at the place they are meant for

A fix with a place is tried first at the end of the beginning that has its position. So it does
its work there, whatever else its line holds, when it recognises the text that comes after.
-/

namespace MarkupRepair

/-- The places from the end of a beginning on come after the places inside it. -/
theorem exists_cursorsFrom_append (offset : Nat) (previous : Option Char) (a b : Text) :
    ∃ earlier, cursorsFrom offset previous (a ++ b) =
        earlier ++ cursorsFrom (offset + Text.size a) (a.getLast?.or previous) b ∧
      ∀ c ∈ earlier, c.offset < offset + Text.size a := by
  induction a generalizing offset previous with
  | nil => exact ⟨[], by simp, by simp⟩
  | cons c r ih =>
      obtain ⟨earlier, hcursors, hearlier⟩ := ih (offset + c.utf8Size) (some c)
      have hpos := c.utf8Size_pos
      have hlast : r.getLast?.or (some c) = (c :: r).getLast?.or previous := by
        cases r with
        | nil => rfl
        | cons d r => simp [List.getLast?_cons]
      refine ⟨⟨offset, previous, c :: (r ++ b)⟩ :: earlier, ?_, ?_⟩
      · rw [List.cons_append, cursorsFrom, hcursors, hlast, Text.size_cons, Nat.add_assoc,
          List.cons_append]
      · rw [List.forall_mem_cons, Text.size_cons]
        constructor
        · simp only
          omega
        · intro d hd
          have hnext := hearlier d hd
          omega

/-- A place in a text has its offset, the character in front of it and the text behind it. -/
theorem exists_of_mem_cursors {c : Cursor} {t : Text} (h : c ∈ cursors t) :
    ∃ front, t = front ++ c.after ∧ c.offset = Text.size front ∧ c.before = front.getLast? := by
  have hsplit : ∀ (t : Text) (offset : Nat) (previous : Option Char),
      c ∈ cursorsFrom offset previous t → ∃ front, t = front ++ c.after ∧
        c.offset = offset + Text.size front ∧ c.before = front.getLast?.or previous := by
    intro t
    induction t with
    | nil =>
        intro offset previous hc
        obtain rfl := List.mem_singleton.mp hc
        exact ⟨[], rfl, rfl, rfl⟩
    | cons d r ih =>
        intro offset previous hc
        rcases List.mem_cons.mp hc with rfl | hc
        · exact ⟨[], rfl, rfl, rfl⟩
        · obtain ⟨front, hr, hoffset, hbefore⟩ := ih _ _ hc
          refine ⟨d :: front, by rw [List.cons_append, ← hr], ?_, ?_⟩
          · rw [hoffset, Text.size_cons, Nat.add_assoc]
          · rw [hbefore, List.getLast?_cons]
            cases front.getLast? <;> rfl
  obtain ⟨front, ht, hoffset, hbefore⟩ := hsplit t 0 none h
  exact ⟨front, ht, by rw [hoffset, Nat.zero_add], by rw [hbefore, Option.or_none]⟩

namespace Fix

/-- The first place at which a fix for the position after a beginning is tried is its end. -/
theorem exists_candidates_eq_cons (before after : Text) :
    ∃ others, candidates (before ++ after) (Text.endPosition before) =
      ⟨Text.size before, before.getLast?, after⟩ :: others := by
  have hoffset := LineIndex.offset?_endPosition before after
  have hboundary := Text.isBoundary_size_append before after
  obtain ⟨earlier, hcursors, hearlier⟩ := exists_cursorsFrom_append 0 none before after
  rw [Nat.zero_add, Option.or_none] at hcursors
  rw [Nat.zero_add] at hearlier
  have hfirst : ∃ later, cursorsFrom (Text.size before) before.getLast? after =
      ⟨Text.size before, before.getLast?, after⟩ :: later := by
    cases after with
    | nil => exact ⟨[], rfl⟩
    | cons c r => exact ⟨_, rfl⟩
  obtain ⟨later, hfirst⟩ := hfirst
  have hnone : earlier.filter (fun c => some (Text.size before) == some c.offset) = [] := by
    rw [List.filter_eq_nil_iff]
    intro c hc
    have := hearlier c hc
    simp only [beq_iff_eq, Option.some.injEq]
    omega
  cases hspan : (LineIndex.ofText (before ++ after)).lineSpan?
      (Text.endPosition before).line with
  | none => simp [LineIndex.offset?, hspan] at hoffset
  | some span =>
      simp only [candidates, hspan, hoffset, Option.filter_some, hboundary, if_true, cursors,
        hcursors, hfirst, List.filter_append, hnone, List.nil_append, List.filter_cons,
        beq_self_eq_true, if_true, List.cons_append]
      exact ⟨_, rfl⟩

/-- A fix for the position after a beginning changes what comes after it. -/
theorem applyInLine_append {fix : Fix} {before after changed : Text}
    (h : fix.editAt before.getLast? after = some changed) :
    fix.applyInLine (Text.endPosition before) (before ++ after) = some (before ++ changed) := by
  obtain ⟨others, hcandidates⟩ := exists_candidates_eq_cons before after
  simp only [applyInLine, hcandidates, List.findSome?_cons, h, Option.map_some,
    Text.takeBytes_size_append]

/-- Whether a fix changes a text at the very place that it is meant for. -/
def ChangesInPlace (fix : Fix) (t next : Text) : Prop :=
  ∃ before after changed, t = before ++ after ∧ next = before ++ changed ∧
    fix.position? = some (Text.endPosition before) ∧
      fix.editAt before.getLast? after = some changed

/-- A fix that changes a text at its place is applied there. -/
theorem ChangesInPlace.apply_eq {fix : Fix} {t next : Text} (h : fix.ChangesInPlace t next) :
    fix.apply t = some next := by
  obtain ⟨before, after, changed, rfl, rfl, hposition, hedit⟩ := h
  have happly := applyInLine_append hedit
  cases fix with
  | quoteAttribute | collapseQuotes | terminateEntity | expandSelfClosing =>
      obtain rfl := Option.some.inj hposition
      exact happly
  | _ => cases hposition

/-- A fix with a place is tried at places of the text only. -/
theorem mem_cursors_of_mem_candidates {c : Cursor} {t : Text} {p : Position}
    (h : c ∈ candidates t p) : c ∈ cursors t := by
  unfold candidates at h
  dsimp only at h
  split at h
  next => cases h
  next =>
    rcases List.mem_append.mp h with h | h
    · exact (List.mem_filter.mp h).1
    · exact (List.mem_filter.mp h).1

/-- Wherever in its line a fix with a place changes a text, it edits what comes after a beginning
of the text. -/
theorem exists_of_applyInLine {fix : Fix} {p : Position} {t next : Text}
    (h : fix.applyInLine p t = some next) :
    ∃ front after changed, t = front ++ after ∧ next = front ++ changed ∧
      fix.editAt front.getLast? after = some changed := by
  obtain ⟨c, hc, hedit⟩ := List.exists_of_findSome?_eq_some h
  obtain ⟨changed, hchanged, rfl⟩ := Option.map_eq_some_iff.mp hedit
  obtain ⟨front, ht, hoffset, hbefore⟩ := exists_of_mem_cursors (mem_cursors_of_mem_candidates hc)
  rw [hbefore] at hchanged
  refine ⟨front, c.after, changed, ht, ?_, hchanged⟩
  rw [hoffset, ht, Text.takeBytes_size_append]

end Fix

end MarkupRepair
