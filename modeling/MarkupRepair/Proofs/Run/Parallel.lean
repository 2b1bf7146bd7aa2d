import MarkupRepair.Proofs.Report.Totals
import MarkupRepair.Proofs.Run.OneFailure
import MarkupRepair.Proofs.Storage.Interleaving
import MarkupRepair.Run.Documents

/-!
# Documents processed at once

Processing a document is about the document and its backup only. So when no two documents share
such a path, processing them at once, with their requests to the store interleaved in any way,
ends with the same reports and the same store as processing them one after another. The report
on the run does not even depend on the order in which the reports come in, for it sorts them by
their paths.
-/

namespace MarkupRepair

/-- The paths that processing a document is about: the document and its backup. -/
def RunSettings.documentPaths (settings : RunSettings) (path : Path) : List Path :=
  [Path.join settings.root path, settings.backups.pathFor settings.root path]

/-- The value of a script that ends as wanted is as wanted. -/
theorem Host.run_of_within {σ α : Type} (host : Host σ) {own : Set Path} {wanted : α → Prop}
    {script : Script α} (h : script.Within own wanted) (s : σ) : wanted (host.run script s).1 := by
  induction script generalizing s with
  | done value => exact h
  | ask r next ih => exact ih _ (h.2 _) _

/-- Reading a document is about the document only. -/
theorem within_readDocument {own : Set Path} {path : Path} (h : path ∈ own) :
    (readDocument path).Within own fun _ => True := by
  refine Script.within_bind (Script.within_request h fun _ => trivial) fun answer _ => ?_
  cases answer with
  | error why => trivial
  | ok bytes =>
      dsimp only
      split <;> trivial

namespace FileReport

/-- What became of its repair does not change which document a report is on. -/
theorem path_withOutcome (f : FileReport) (result : RepairResult)
    (outcome : Except EditError CommitOutcome) : (f.withOutcome result outcome).path = f.path := by
  cases outcome with
  | error why => rfl
  | ok outcome => cases outcome <;> rfl

end FileReport

/-- Processing a document is about the document and its backup only, and its report is on that
document. -/
theorem within_processDocument (settings : RunSettings) (path : Path) :
    (processDocument settings path).Within {p | p ∈ settings.documentPaths path}
      fun report => report.path = path := by
  have htarget : Path.join settings.root path ∈ {p | p ∈ settings.documentPaths path} :=
    List.mem_cons_self
  have hbackup : settings.backups.pathFor settings.root path ∈
      {p | p ∈ settings.documentPaths path} := List.mem_cons_of_mem _ List.mem_cons_self
  refine Script.within_bind (within_readDocument htarget) fun answer _ => ?_
  cases answer with
  | error why => exact rfl
  | ok t =>
      dsimp only
      split
      · exact rfl
      · unfold repairDocument
        dsimp only
        split
        · exact rfl
        · split
          · exact rfl
          · split
            · exact rfl
            · refine Script.within_bind (within_commitRepair htarget hbackup t _) fun _ _ => ?_
              exact FileReport.path_withOutcome _ _ _

/-- A run that does not stop at the first fault processes every document. -/
theorem processDocuments_eq_oneByOne {settings : RunSettings} (hfast : settings.failFast = false)
    (paths : List Path) : processDocuments settings false paths = (do
      let files ← Script.oneByOne (paths.map (processDocument settings))
      return ⟨files, false⟩) := by
  induction paths with
  | nil => rfl
  | cons path rest ih =>
      simp only [processDocuments, Bool.false_eq_true, if_false, hfast, Bool.false_and,
        Bool.or_false, ih, List.map_cons, Script.oneByOne, bind_assoc, pure_bind]

/-- The reports on documents that are processed one after another are on those documents. -/
theorem map_path_oneByOne {σ : Type} (host : Host σ) (settings : RunSettings) (paths : List Path)
    (s : σ) : (host.run (Script.oneByOne (paths.map (processDocument settings))) s).1.map
      (·.path) = paths := by
  induction paths generalizing s with
  | nil => rfl
  | cons path rest ih =>
      simp only [List.map_cons, Script.oneByOne, Host.run_bind, Script.pure_eq_done,
        Host.run_done, ih, Host.run_of_within _ (within_processDocument settings path)]

/-- Documents that share no path with each other are processed by scripts that share none. -/
theorem fenced_processDocument {settings : RunSettings} {paths : List Path}
    (hapart : paths.Pairwise fun p q =>
      (settings.documentPaths p).Disjoint (settings.documentPaths q)) :
    Script.Fenced (paths.map fun path => {p | p ∈ settings.documentPaths path})
      (paths.map (processDocument settings)) := by
  constructor
  · rw [List.pairwise_map]
    refine hapart.imp ?_
    intro p q hpq
    exact Set.disjoint_left.mpr fun _ hp hq => hpq hp hq
  · rw [List.forall₂_map_left_iff, List.forall₂_map_right_iff, List.forall₂_same]
    intro path _
    exact (within_processDocument settings path).mono (fun _ h => h) fun _ _ => trivial

/-- Documents that share no path with each other are different documents. -/
theorem nodup_of_documentPaths {settings : RunSettings} {paths : List Path}
    (hapart : paths.Pairwise fun p q =>
      (settings.documentPaths p).Disjoint (settings.documentPaths q)) : paths.Nodup := by
  refine hapart.imp ?_
  rintro p _ hpq rfl
  exact hpq List.mem_cons_self List.mem_cons_self

/-- Documents may be processed at once. When no two of them share a path and the run does not
stop at the first fault, their requests to the store may be interleaved in any way: this comes
to an end, the reports are those on the documents processed one after another, the store holds
what it holds then, and the report on the run is the same in whatever order the reports come
in. -/
theorem processDocuments_interleaved (settings : RunSettings) (paths : List Path) (m : Memory)
    (hfast : settings.failFast = false)
    (hapart : paths.Pairwise fun p q =>
      (settings.documentPaths p).Disjoint (settings.documentPaths q)) :
    let start := (paths.map (processDocument settings), m)
    let sequential := Memory.host.run (processDocuments settings false paths) m
    Acc (fun next now => Memory.host.Turn now next) start ∧
      ∀ reached, Relation.ReflTransGen Memory.host.Turn start reached →
        (∀ next, ¬ Memory.host.Turn reached next) →
          reached.1 = sequential.1.files.map Script.done ∧
          (∀ path, reached.2.get? path = sequential.2.get? path) ∧
          ∀ tool info completed, completed.Perm sequential.1.files →
            RunReport.ofFiles tool info completed =
              RunReport.ofFiles tool info sequential.1.files := by
  intro start sequential
  refine ⟨Host.acc_turn start, ?_⟩
  intro reached hturns hend
  obtain ⟨hfiles, hstore⟩ :=
    Memory.eq_of_turns_ended (fenced_processDocument hapart) hturns hend
  have hsequential : sequential =
      (⟨(Memory.host.run (Script.oneByOne start.1) start.2).1, false⟩,
        (Memory.host.run (Script.oneByOne start.1) start.2).2) := by
    simp only [sequential, start, processDocuments_eq_oneByOne hfast, Host.run_bind,
      Script.pure_eq_done, Host.run_done]
  rw [hsequential]
  refine ⟨hfiles, hstore, ?_⟩
  intro tool info completed hperm
  have hdistinct : ((Memory.host.run (Script.oneByOne start.1) start.2).1.map (·.path)).Nodup := by
    rw [map_path_oneByOne]
    exact nodup_of_documentPaths hapart
  unfold RunReport.ofFiles
  rw [RunReport.sortFiles_eq_of_perm hperm hdistinct]

/-- A store with two documents that each have an ampersand on its own. -/
def ampersandPair : Memory :=
  ampersandStore.put (Path.join "." "b.xhtml") ampersandDocument.encode

/-- Two documents in one directory share no path. -/
theorem disjoint_documentPaths_pair :
    ["a.xhtml", "b.xhtml"].Pairwise fun p q =>
      (RunSettings.documentPaths { repair := true } p).Disjoint
        (RunSettings.documentPaths { repair := true } q) := by
  have hdisjoint : ∀ p ∈ RunSettings.documentPaths { repair := true } "a.xhtml",
      p ∉ RunSettings.documentPaths { repair := true } "b.xhtml" := by
    decide +kernel
  rw [List.pairwise_pair]
  exact fun p hp hq => hdisjoint p hp hq

/-- Of two documents the first is read, then the second is processed, and only then the first is
processed to its end. This ends as processing one after the other does. -/
theorem processDocuments_interleaved_pair :
    RunSettings.failFast { repair := true } = false ∧
      (["a.xhtml", "b.xhtml"].Pairwise fun p q =>
        (RunSettings.documentPaths { repair := true } p).Disjoint
          (RunSettings.documentPaths { repair := true } q)) ∧
      ∃ next report s reached,
        processDocument { repair := true } "a.xhtml" =
            .ask (.read (Path.join "." "a.xhtml")) next ∧
        Relation.ReflTransGen Memory.host.Turn
          (["a.xhtml", "b.xhtml"].map (processDocument { repair := true }), ampersandPair)
          ([next (.ok ampersandDocument.encode), .done report], s) ∧
        Relation.ReflTransGen Memory.host.Turn
          ([next (.ok ampersandDocument.encode), .done report], s) reached ∧
        (∀ later, ¬ Memory.host.Turn reached later) ∧
        reached.1 = (Memory.host.run (processDocuments { repair := true } false
          ["a.xhtml", "b.xhtml"]) ampersandPair).1.files.map Script.done := by
  refine ⟨rfl, disjoint_documentPaths_pair, ?_⟩
  have hanswer : Memory.host.answer (.read (Path.join "." "a.xhtml")) ampersandPair =
      (.ok ampersandDocument.encode, ampersandPair) := by
    have hne : Path.join "." "a.xhtml" ≠ Path.join "." "b.xhtml" := by
      decide +kernel
    have held : ampersandPair.get? (Path.join "." "a.xhtml") = some ampersandDocument.encode := by
      rw [ampersandPair, Memory.get?_put, if_neg hne, get?_ampersandStore]
    simp only [Memory.host, Memory.answer, held]
  obtain ⟨next, hnext⟩ : ∃ next, processDocument { repair := true } "a.xhtml" =
      .ask (.read (Path.join "." "a.xhtml")) next := ⟨_, rfl⟩
  have hfirst : Memory.host.Turn
      (["a.xhtml", "b.xhtml"].map (processDocument { repair := true }), ampersandPair)
      ([next (.ok ampersandDocument.encode), processDocument { repair := true } "b.xhtml"],
        ampersandPair) := by
    have hturn := @Host.Turn.intro _ _ Memory.host [] (.read (Path.join "." "a.xhtml")) next
      [processDocument { repair := true } "b.xhtml"] ampersandPair
    rw [hanswer] at hturn
    rw [List.map_cons, List.map_cons, List.map_nil, hnext]
    exact hturn
  have hsecond := Host.turns_run Memory.host [next (.ok ampersandDocument.encode)] []
    (processDocument { repair := true } "b.xhtml") ampersandPair
  generalize Memory.host.run (processDocument { repair := true } "b.xhtml") ampersandPair =
    second at hsecond
  have hthird := Host.turns_run Memory.host [] [.done second.1]
    (next (.ok ampersandDocument.encode)) second.2
  generalize Memory.host.run (next (.ok ampersandDocument.encode)) second.2 = first at hthird
  have hend : ∀ later, ¬ Memory.host.Turn ([.done first.1, .done second.1], first.2) later :=
    Host.forall_not_turn_iff.mpr ⟨[first.1, second.1], rfl⟩
  have hturns := (Relation.ReflTransGen.head hfirst hsecond).trans hthird
  obtain ⟨-, hended⟩ := processDocuments_interleaved { repair := true } ["a.xhtml", "b.xhtml"]
    ampersandPair rfl disjoint_documentPaths_pair
  exact ⟨next, second.1, second.2, _, hnext, .head hfirst hsecond, hthird, hend,
    (hended _ hturns hend).1⟩

end MarkupRepair
