import MarkupRepair.Proofs.Repair.Passes
import MarkupRepair.Proofs.Run.Faultless
import MarkupRepair.Proofs.Run.OneFailure

/-!
# Processing a document a second time

A repair stops when a pass changes nothing or when its budget of passes is spent. In the first
case its text is settled, and a second run over the document finds nothing to store. In the
second case the repair may have been cut short, and then the second run goes on with it.
-/

namespace MarkupRepair

/-- Whether the budget of passes cuts a repair short: one more pass would apply further fixes. -/
def CutShort (options : RepairOptions) (t : Text) : Prop :=
  (repair options t).fixesApplied <
    (repair { options with maxPasses := max options.maxPasses 1 + 1 } t).fixesApplied

section Budget

variable {options : RepairOptions} {t : Text}

/-- A repair is cut short when a pass over its text still changes something. -/
theorem cutShort_iff : CutShort options t ↔
    (applyPass options.policy (analyze (repair options t).content)
      (repair options t).content).2 ≠ [] := by
  have hmore : max (max options.maxPasses 1 + 1) 1 = max options.maxPasses 1 + 1 := by
    omega
  have happlied : (repair { options with maxPasses := max options.maxPasses 1 + 1 } t).applied =
      (repair options t).applied ++ (applyPass options.policy
        (analyze (repair options t).content) (repair options t).content).2 := by
    rw [repair, hmore]
    exact applied_repairWithin_succ _ _ _
  rw [CutShort, fixesApplied_repair, fixesApplied_repair, happlied, List.length_append,
    Nat.lt_add_right_iff_pos, List.length_pos_iff]

/-- A repair that has not spent its passes is not cut short. -/
theorem not_cutShort_of_passes_lt (h : (repair options t).passes < max options.maxPasses 1) :
    ¬ CutShort options t := by
  rw [cutShort_iff, not_not]
  exact applyPass_repairWithin_of_passes_lt h

/-- Repairing once more what was not cut short changes nothing. -/
theorem changed_repair_repair (h : ¬ CutShort options t) :
    (repair options (repair options t).content).changed = false := by
  rw [cutShort_iff, not_not] at h
  have hnone : (repair options (repair options t).content).applied = [] :=
    (repairWithin_of_applyPass_eq_nil h _).1
  rw [RepairResult.changed, fixesApplied_repair, hnone]
  rfl

end Budget

/-- On a store that never fails, a second run over a document leaves the store as the first run
left it and reports no repair, unless the first run has stored a repair that was cut short by its
budget of passes. -/
theorem processDocument_again (settings : RunSettings) (path : Path) (m : Memory)
    (hbudget : ∀ t, m.get? (Path.join settings.root path) = some t.encode →
      (Memory.host.run (processDocument settings path) m).1.status.isCommitted = true →
        ¬ CutShort settings.repairOptions t) :
    let first := Memory.host.run (processDocument settings path) m
    let second := Memory.host.run (processDocument settings path) first.2
    second.2 = first.2 ∧ second.1.status.isCommitted = false := by
  intro first second
  have hfirst : first = _ := run_processDocument settings path m
  have hrepeated : first.2 = m → first.1.status.isCommitted = false →
      second.2 = first.2 ∧ second.1.status.isCommitted = false := by
    intro hsame hstatus
    have hsecond : second = first := by
      simp only [second, hsame]
      rfl
    rw [hsecond]
    exact ⟨rfl, hstatus⟩
  cases hread : (Memory.host.run (readDocument (Path.join settings.root path)) m).1 with
  | error why =>
      simp only [hread] at hfirst
      exact hrepeated (by rw [hfirst]) (by rw [hfirst]; rfl)
  | ok t =>
      have held := ((run_readDocument _ m).2 t).mp hread
      simp only [hread] at hfirst
      cases hsettled : settled? settings path t with
      | some report =>
          simp only [hsettled] at hfirst
          exact hrepeated (by rw [hfirst]) (by rw [hfirst]; exact (of_settled?_eq_some hsettled).1)
      | none =>
          have hensures : (processDocument settings path).Ensures
              (Memory.mayFailWithin fun _ => False) (fun _ => True)
              (ProcessingEnd _ settings path m 0) (m, 0) :=
            ensures_processDocument_within (Nat.zero_le 1)
          obtain ⟨hstored, -⟩ | ⟨hleft, hsame⟩ :=
            (Memory.ensures_within_zero_iff.mp hensures).of_text held
          · have hchanged := changed_repair_repair (hbudget t held hstored.committed)
            have hreread := ((run_readDocument _ first.2).2 _).mpr hstored.holds
            have hunsettled : settled? settings path (repair settings.repairOptions t).content ≠
                none := by
              rw [ne_eq, settled?_eq_none_iff, hchanged]
              simp
            obtain ⟨report, hreport⟩ := Option.ne_none_iff_exists'.mp hunsettled
            have hsecond : second = _ := run_processDocument settings path first.2
            simp only [hreread, hreport] at hsecond
            rw [hsecond]
            exact ⟨rfl, (of_settled?_eq_some hreport).1⟩
          · exact hrepeated hsame hleft.notCommitted

section Strayed

set_option maxRecDepth 10000 in
/-- A repairing run stores the repair of that document, and that of its repair, which is again
another text. -/
theorem settled?_strayedDocument :
    settled? { repair := true } "a.xhtml" strayedDocument = none ∧
      settled? { repair := true } "a.xhtml"
        (repair (RunSettings.repairOptions { repair := true }) strayedDocument).content = none ∧
      (repair (RunSettings.repairOptions { repair := true })
        (repair (RunSettings.repairOptions { repair := true }) strayedDocument).content).content ≠
          (repair (RunSettings.repairOptions { repair := true }) strayedDocument).content := by
  decide +kernel

/-- A store with nothing but that document. -/
def strayedStore : Memory := [(Path.join "." "a.xhtml", strayedDocument.encode)]

/-- A repair may be cut short by the default budget: a second run over the document stores
another one. -/
theorem processDocument_again_strayed :
    ∃ first second : FileReport × Memory,
      Memory.host.run (processDocument { repair := true } "a.xhtml") strayedStore = first ∧
      Memory.host.run (processDocument { repair := true } "a.xhtml") first.2 = second ∧
      second.1.status.isCommitted = true ∧
      second.2.get? (Path.join "." "a.xhtml") ≠ first.2.get? (Path.join "." "a.xhtml") := by
  obtain ⟨hsettled, hagain, hne⟩ := settled?_strayedDocument
  have hpaths : BackupOptions.pathFor {} "." "a.xhtml" ≠ Path.join "." "a.xhtml" := by
    decide +kernel
  have held : strayedStore.get? (Path.join "." "a.xhtml") = some strayedDocument.encode := by
    simp [strayedStore, Memory.get?]
  have fresh : strayedStore.get? (BackupOptions.pathFor {} "." "a.xhtml") = none := by
    simp [strayedStore, Memory.get?, List.lookup_cons, beq_false_of_ne hpaths]
  obtain ⟨hfirst, hothers⟩ := run_processDocument_of_fresh held fresh hsettled
  cases hrun : Memory.host.run (processDocument { repair := true } "a.xhtml") strayedStore with
  | mk report m =>
      rw [hrun] at hfirst hothers
      obtain ⟨hsecond, -⟩ := run_processDocument_of_fresh hfirst.holds
        ((hothers _ hpaths).trans fresh) hagain
      cases hrerun : Memory.host.run (processDocument { repair := true } "a.xhtml") m with
      | mk report' m' =>
          rw [hrerun] at hsecond
          refine ⟨_, _, rfl, hrerun, hsecond.committed, fun hequal => ?_⟩
          have hbytes := hsecond.holds.symm.trans (hequal.trans hfirst.holds)
          exact hne (Text.encode_injective (Option.some.inj hbytes))

end Strayed

set_option maxRecDepth 10000 in
/-- One pass is enough for the ampersand. -/
theorem not_cutShort_ampersandDocument :
    ¬ CutShort (RunSettings.repairOptions { repair := true }) ampersandDocument := by
  refine not_cutShort_of_passes_lt ?_
  decide +kernel

/-- A second run over the document with the ampersand changes nothing. -/
theorem processDocument_again_ampersand :
    let first := Memory.host.run (processDocument { repair := true } "a.xhtml") ampersandStore
    let second := Memory.host.run (processDocument { repair := true } "a.xhtml") first.2
    first.1.status.isCommitted = true ∧
      ¬ CutShort (RunSettings.repairOptions { repair := true }) ampersandDocument ∧
      second.2 = first.2 ∧ second.1.status.isCommitted = false := by
  refine ⟨?_, not_cutShort_ampersandDocument, ?_⟩
  · exact (run_processDocument_of_fresh get?_ampersandStore get?_ampersandStore_backup
      settled?_ampersandDocument).1.committed
  · refine processDocument_again { repair := true } "a.xhtml" ampersandStore ?_
    intro t held _
    obtain rfl := Text.encode_injective (Option.some.inj (held.symm.trans get?_ampersandStore))
    exact not_cutShort_ampersandDocument

end MarkupRepair
