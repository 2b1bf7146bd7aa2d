import MarkupRepair.Proofs.Run.Document

/-!
# Runs on a store that never fails

What becomes of a document on a store that never fails, as an equation: it is read, and then it
is left as it is with a report or its repair is stored.
-/

namespace MarkupRepair

/-- On a store that never fails, reading a document changes nothing and gives what is there. -/
theorem run_readDocument (path : Path) (m : Memory) :
    (Memory.host.run (readDocument path) m).2 = m ∧
      ∀ t, (Memory.host.run (readDocument path) m).1 = .ok t ↔ m.get? path = some t.encode := by
  have hread : (readDocument path).Ensures (Memory.mayFailWithin fun _ => False) (fun _ => True)
      (fun answer after => after.1 = m ∧ ∀ t, answer = .ok t ↔ m.get? path = some t.encode)
      (m, 0) := by
    refine ensures_readDocument_within (Nat.zero_le 1) ?_ ?_ ?_
    · intro t ht
      refine ⟨rfl, fun t' => ?_⟩
      rw [ht, Except.ok.injEq, Option.some_inj, Text.encode_injective.eq_iff]
    · intro why hnone
      refine ⟨rfl, fun t => ?_⟩
      simp only [reduceCtorEq, false_iff]
      intro ht
      rw [ht, Option.bind_some, Text.decode?_encode] at hnone
      cases hnone
    · rintro why ⟨⟩
  exact Memory.ensures_within_zero_iff.mp hread

/-- On a store that never fails, a document is left as it is with a report, or its repair is
stored. -/
theorem run_processDocument (settings : RunSettings) (path : Path) (m : Memory) :
    Memory.host.run (processDocument settings path) m =
      match (Memory.host.run (readDocument (Path.join settings.root path)) m).1 with
      | .error why => (.ofError path why, m)
      | .ok t =>
          match settled? settings path t with
          | some report => (report, m)
          | none =>
              let result := repair settings.repairOptions t
              let storing := Memory.host.run (commitRepair (Path.join settings.root path)
                (settings.backups.pathFor settings.root path) t result.content).run m
              ((FileReport.ofAnalysis path t (analyze t)).withOutcome result storing.1,
                storing.2) := by
  rw [processDocument_eq, Host.run_bind, (run_readDocument _ m).1]
  cases (Memory.host.run (readDocument (Path.join settings.root path)) m).1 with
  | error why => rfl
  | ok t =>
      dsimp only
      cases settled? settings path t with
      | some report => rfl
      | none =>
          dsimp only
          rw [Host.run_bind]
          rfl

/-- On a store that never fails, a repair without fatal issues is stored over the text that it
was made from when no backup is in its way. -/
theorem run_commitRepair {target backup : Path} {former repaired : Text} {m : Memory}
    (held : m.get? target = some former.encode) (fresh : m.get? backup = none)
    (hfree : FreeOfFatal repaired) :
    Memory.host.run (commitRepair target backup former repaired).run m =
      (.ok (.committed (sha256Hex repaired.encode) (analyze repaired)),
        ((m.put backup former.encode).put target repaired.encode).erase backup) := by
  have hensures : (commitRepair target backup former repaired).run.Ensures
      (Memory.mayFailWithin fun _ => False) (fun _ => True)
      (StoringEnd _ target backup former repaired m 0) (m, 0) :=
    ensures_commitRepair_within (Nat.zero_le 1) held hfree
  have hend := Memory.ensures_within_zero_iff.mp hensures
  cases hrun : Memory.host.run (commitRepair target backup former repaired).run m with
  | mk outcome after =>
      rw [hrun] at hend
      cases hend with
      | stale busy => exact absurd fresh busy
      | stored fresh => rfl

/-- On a store that never fails, a document whose repair is to be stored is reported as repaired
when no backup is in its way, and no other path is touched. -/
theorem run_processDocument_of_fresh {settings : RunSettings} {path : Path} {m : Memory} {t : Text}
    (held : m.get? (Path.join settings.root path) = some t.encode)
    (fresh : m.get? (settings.backups.pathFor settings.root path) = none)
    (unsettled : settled? settings path t = none) :
    (Memory.host.run (processDocument settings path) m).1.RepairStored settings
        (Path.join settings.root path) t (Memory.host.run (processDocument settings path) m).2 ∧
      ∀ other, other ≠ Path.join settings.root path →
        (Memory.host.run (processDocument settings path) m).2.get? other = m.get? other := by
  have hensures : (processDocument settings path).Ensures (Memory.mayFailWithin fun _ => False)
      (fun _ => True) (ProcessingEnd _ settings path m 0) (m, 0) :=
    ensures_processDocument_within (Nat.zero_le 1)
  have hend := Memory.ensures_within_zero_iff.mp hensures
  have hstored := hend.repairStored held fresh unsettled
  obtain ⟨-, hothers⟩ | ⟨hleft, -⟩ := hend.of_text held
  · exact ⟨hstored, hothers⟩
  · exact absurd hleft hstored.not_leftAlone

end MarkupRepair
