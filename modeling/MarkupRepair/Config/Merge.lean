import MarkupRepair.Config.File
import MarkupRepair.Run.Settings

/-!
# Settings from a configuration file and a command line

A command line wins over the configuration file, which wins over the defaults. Patterns of
documents replace those of the file; patterns that leave something out, or concern codes, are
added to them.
-/

namespace MarkupRepair

/-- What a command line sets for any run. -/
structure RunOverrides where
  /-- Patterns of documents; none means not given. -/
  includes : List String := []
  /-- Further patterns of documents to leave out. -/
  excludes : List String := []
  /-- The directory of the report. -/
  outDir : Option Path := none
  /-- How many documents may be worked on at once. -/
  jobs : Option Nat := none
  /-- Upper bound on the issues listed for one document. -/
  maxIssuesPerFile : Option Nat := none
  deriving DecidableEq, Repr

/-- What a command line sets for a run that repairs. -/
structure RepairOverrides where
  /-- Whether repairs are only tried out. -/
  dryRun : Bool := false
  /-- Further patterns of codes that may be repaired. -/
  allow : List String := []
  /-- Further patterns of codes that may not be repaired. -/
  deny : List String := []
  /-- Upper bound on passes. -/
  maxPasses : Option Nat := none
  /-- Whether to stop at the first document that goes wrong. -/
  failFast : Bool := false
  /-- The suffix of backups. -/
  backupSuffix : Option String := none
  /-- The directory of backups. -/
  backupDir : Option Path := none
  deriving DecidableEq, Repr

/-- The list with the members of another added that it lacks. -/
def addMissing (list : List String) (others : List String) : List String :=
  others.foldl (fun list s => if list.contains s then list else list ++ [s]) list

/-- Nothing is lost and nothing else is added. -/
theorem mem_addMissing {s : String} {list others : List String} :
    s ∈ addMissing list others ↔ s ∈ list ∨ s ∈ others := by
  induction others generalizing list with
  | nil => simp [addMissing]
  | cons t rest ih =>
      have h := @ih (if list.contains t then list else list ++ [t])
      simp only [addMissing, List.foldl_cons] at h ⊢
      rw [h]
      by_cases ht : t ∈ list
      · simp only [List.contains_iff_mem, ht, if_true, List.mem_cons]
        constructor
        · rintro (hs | hs)
          · exact .inl hs
          · exact .inr (.inr hs)
        · rintro (hs | rfl | hs)
          · exact .inl hs
          · exact .inl ht
          · exact .inr hs
      · simp [ht, or_assoc]

namespace ConfigFile

/-- The patterns of documents, the given ones first of all. -/
def includesFor (config : ConfigFile) (given : List String) : List String :=
  if !given.isEmpty then given
  else if !config.includes.isEmpty then config.includes
  else defaultInclude

/-- The settings of a run that repairs nothing. -/
def checkSettings (config : ConfigFile) (root : Path) (given : RunOverrides) : RunSettings :=
  { root
    outDir := (given.outDir.or config.outDir).getD defaultOutDir
    includes := config.includesFor given.includes
    excludes := addMissing config.excludes given.excludes
    jobs := (given.jobs.or config.jobs).getD 1
    maxIssuesPerFile := (given.maxIssuesPerFile.or config.maxIssuesPerFile).getD defaultMaxIssues }

/-- The settings of a run that repairs. -/
def repairSettings (config : ConfigFile) (root : Path) (given : RunOverrides)
    (repair : RepairOverrides) : RunSettings :=
  { config.checkSettings root given with
    repair := true
    dryRun := repair.dryRun
    policy := ⟨addMissing config.allow repair.allow, addMissing config.deny repair.deny⟩
    maxPasses := (repair.maxPasses.or config.maxPasses).getD defaultMaxPasses
    backups :=
      ⟨(repair.backupSuffix.or config.backupSuffix).getD defaultBackupSuffix,
        repair.backupDir.or config.backupDir⟩
    failFast := repair.failFast || config.failFast }

end ConfigFile

end MarkupRepair
