import MarkupRepair.Config.Merge
import MarkupRepair.Proofs.Repair.Permission
import MarkupRepair.Proofs.Run.Arising
import MarkupRepair.Proofs.Run.OneFailure

/-!
# Policies from a configuration file and a command line

The file and the command line may each let codes be repaired and each forbid it. Together they
let a code be repaired when neither forbids it and, if either names codes to repair, one of them
names it. The merged settings permit exactly these codes, and a run with these settings repairs
nothing else, whatever its store does.
-/

namespace MarkupRepair

/-- Whether a configuration file and a command line together let a code be repaired. -/
def ConfigFile.Lets (config : ConfigFile) (overrides : RepairOverrides) (code : String) : Prop :=
  (∀ pattern, pattern ∈ config.deny ∨ pattern ∈ overrides.deny →
      wildcardMatches pattern code = false) ∧
    (config.allow ≠ [] ∨ overrides.allow ≠ [] →
      ∃ pattern, (pattern ∈ config.allow ∨ pattern ∈ overrides.allow) ∧
        wildcardMatches pattern code = true)

/-- No pattern is left out only when there was none. -/
theorem addMissing_eq_nil_iff {list others : List String} :
    addMissing list others = [] ↔ list = [] ∧ others = [] := by
  simp only [List.eq_nil_iff_forall_not_mem, mem_addMissing, not_or, forall_and]

/-- A policy permits a code that no deny pattern matches and, when there are allow patterns, one
of them does. -/
theorem RepairPolicy.permits_iff {policy : RepairPolicy} {code : String} :
    policy.permits code = true ↔
      (∀ pattern ∈ policy.deny, wildcardMatches pattern code = false) ∧
        (policy.allow ≠ [] → ∃ pattern ∈ policy.allow, wildcardMatches pattern code = true) := by
  simp only [permits, Bool.and_eq_true, Bool.not_eq_true', List.any_eq_false, Bool.or_eq_true,
    List.isEmpty_iff, List.any_eq_true, Bool.not_eq_true, ← or_iff_not_imp_left]

namespace ConfigFile

variable {config : ConfigFile} {root : Path} {given : RunOverrides} {overrides : RepairOverrides}

/-- The merged settings permit what the file and the command line together let be repaired. -/
theorem permits_repairSettings_iff (config : ConfigFile) (root : Path) (given : RunOverrides)
    (overrides : RepairOverrides) (code : String) :
    (config.repairSettings root given overrides).policy.permits code = true ↔
      config.Lets overrides code := by
  simp only [RepairPolicy.permits_iff, Lets, repairSettings, mem_addMissing, ne_eq,
    addMissing_eq_nil_iff, not_and_or]

/-- What a repair with the merged settings applies is let be repaired. -/
theorem lets_of_mem_repair {t : Text} {a : AppliedFix}
    (h : a ∈ (repair (config.repairSettings root given overrides).repairOptions t).applied) :
    config.Lets overrides a.code :=
  (config.permits_repairSettings_iff root given overrides a.code).mp (permits_of_mem_repair h)

/-- What a report of a run with the merged settings lists as applied is let be repaired. -/
theorem lets_of_mem_report {σ : Type} {host : Host σ} {s : σ} {source : DocumentSource}
    {tool : ToolInfo} {cancelled : Bool} {report : RunReport}
    (h : (host.run (run (config.repairSettings root given overrides) source tool cancelled)
      s).1.report = .ok report) {f : FileReport} (hf : f ∈ report.files) {a : AppliedFix}
    (ha : a ∈ f.applied) : config.Lets overrides a.code := by
  obtain ⟨info, paths, start, rfl⟩ := exists_documents_of_report h
  obtain ⟨path, -, rfl | harises⟩ := skipped_or_arises_of_mem_files f (List.mem_mergeSort.mp hf)
  · cases ha
  · obtain hnone | ⟨t, happlied⟩ := harises.applied_eq
    · rw [hnone] at ha
      cases ha
    · rw [happlied] at ha
      exact lets_of_mem_repair ha

/-- The policies of a configuration file and a command line are obeyed. The merged settings permit
exactly the codes that both together let be repaired. Nothing else is ever applied by a repair
with these settings, in whatever pass, nor reported as applied by a run, whatever its store does.
A document none of whose fixable issues may be repaired comes back as it is after no pass. -/
theorem repairSettings_obeyed (config : ConfigFile) (root : Path) (given : RunOverrides)
    (overrides : RepairOverrides) :
    let settings := config.repairSettings root given overrides
    (∀ code, settings.policy.permits code = true ↔ config.Lets overrides code) ∧
      (∀ t, ∀ a ∈ (repair settings.repairOptions t).applied, config.Lets overrides a.code) ∧
      (∀ (σ : Type) (host : Host σ) (s : σ) (source : DocumentSource) (tool : ToolInfo)
        (cancelled : Bool) (report : RunReport),
        (host.run (run settings source tool cancelled) s).1.report = .ok report →
          ∀ f ∈ report.files, ∀ a ∈ f.applied, config.Lets overrides a.code) ∧
      ∀ t, (∀ i ∈ analyze t, i.fixable = true → ¬ config.Lets overrides i.code) →
        repair settings.repairOptions t = ⟨t, 0, analyze t, [], 0⟩ := by
  intro settings
  have hpermits : ∀ code, settings.policy.permits code = true ↔ config.Lets overrides code :=
    config.permits_repairSettings_iff root given overrides
  refine ⟨hpermits, fun _ _ => lets_of_mem_repair, ?_, ?_⟩
  · intro σ host s source tool cancelled report hreport f hf a ha
    exact lets_of_mem_report hreport hf ha
  · intro t hissues
    refine repair_of_forall_not_permits fun i hi hfixable => ?_
    rw [← Bool.not_eq_true]
    exact fun hcode => hissues i hi hfixable ((hpermits i.code).mp hcode)

set_option maxRecDepth 10000 in
/-- The file lets entities be repaired and the command line forbids it. The ampersand stays as it
is. Without the command line it is repaired. -/
theorem repairSettings_obeyed_ampersand :
    (∀ i ∈ analyze ampersandDocument, i.fixable = true →
        ¬ ConfigFile.Lets { allow := ["*_entity"] } { deny := ["invalid_*"] } i.code) ∧
      repair (ConfigFile.repairSettings { allow := ["*_entity"] } "." {}
        { deny := ["invalid_*"] }).repairOptions ampersandDocument =
          ⟨ampersandDocument, 0, analyze ampersandDocument, [], 0⟩ ∧
      ∃ a ∈ (repair (ConfigFile.repairSettings { allow := ["*_entity"] } "." {}
        {}).repairOptions ampersandDocument).applied,
        ConfigFile.Lets { allow := ["*_entity"] } {} a.code := by
  have hforbidden : ∀ i ∈ analyze ampersandDocument, i.fixable = true →
      (ConfigFile.repairSettings { allow := ["*_entity"] } "." {}
        { deny := ["invalid_*"] }).policy.permits i.code = false := by
    decide +kernel
  have hrepaired : (repair (ConfigFile.repairSettings { allow := ["*_entity"] } "." {}
      {}).repairOptions ampersandDocument).applied ≠ [] := by
    decide +kernel
  obtain ⟨hpermits, -, -, hkept⟩ := repairSettings_obeyed { allow := ["*_entity"] } "." {}
    { deny := ["invalid_*"] }
  have hlets : ∀ i ∈ analyze ampersandDocument, i.fixable = true →
      ¬ ConfigFile.Lets { allow := ["*_entity"] } { deny := ["invalid_*"] } i.code := by
    intro i hi hfixable hcode
    exact Bool.noConfusion ((hforbidden i hi hfixable).symm.trans ((hpermits i.code).mpr hcode))
  obtain ⟨a, ha⟩ := List.exists_mem_of_ne_nil _ hrepaired
  obtain ⟨-, happlied, -⟩ := repairSettings_obeyed { allow := ["*_entity"] } "." {} {}
  exact ⟨hlets, hkept ampersandDocument hlets, a, ha, happlied ampersandDocument a ha⟩

end ConfigFile

end MarkupRepair
