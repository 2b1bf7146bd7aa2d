import MarkupRepair.Proofs.Run.Arising

/-!
# Scripts that only look

Some requests have nothing but their answer: to read, to ask what stands at a path, to list a
directory, to tell the time. Finding the documents of a run consists of such requests, and so does
a whole run that writes no documents.
-/

namespace MarkupRepair

/-- Whether a request only looks. -/
def Request.IsQuery : Request → Prop
  | .read _ | .isPresent _ | .kindOf _ | .list _ | .now => True
  | _ => False

namespace Script

variable {α β ε : Type}

/-- Whether a script only looks, whatever it is answered. -/
def Queries : Script α → Prop
  | .done _ => True
  | .ask r next => r.IsQuery ∧ ∀ answer, (next answer).Queries

theorem queries_pure (value : α) : (pure value : Script α).Queries := trivial

theorem queries_request {r : Request} (h : r.IsQuery) : (request r).Queries :=
  ⟨h, fun _ => trivial⟩

theorem queries_bind {script : Script β} {f : β → Script α} (h : script.Queries)
    (hf : ∀ value, (f value).Queries) : (script >>= f).Queries := by
  induction script with
  | done value => exact hf value
  | ask r next ih => exact ⟨h.1, fun answer => ih answer (h.2 answer)⟩

theorem queries_run_pure (value : α) : (pure value : ExceptT ε Script α).run.Queries := trivial

theorem queries_run_lift {script : Script α} (h : script.Queries) :
    (ExceptT.lift script : ExceptT ε Script α).run.Queries := by
  rw [ExceptT.run_lift, ← bind_pure_comp]
  exact queries_bind h fun _ => queries_pure _

theorem queries_run_bind {x : ExceptT ε Script β} {f : β → ExceptT ε Script α}
    (h : x.run.Queries) (hf : ∀ value, (f value).run.Queries) : (x >>= f).run.Queries := by
  rw [ExceptT.run_bind]
  refine queries_bind h ?_
  intro result
  cases result with
  | ok value => exact hf value
  | error why => exact queries_pure _

end Script

open Script

namespace SearchPattern

theorem queries_kindOf (path : Path) : (kindOf path).run.Queries :=
  queries_run_lift (queries_request trivial)

theorem queries_namesIn (directory : Path) : (namesIn directory).run.Queries :=
  queries_bind (queries_request trivial) fun _ => queries_pure _

theorem queries_collect {α : Type} {found : α → SearchScript (List Path)}
    (h : ∀ a, (found a).run.Queries) (members : List α) :
    (collect found members).run.Queries := by
  induction members with
  | nil => exact queries_run_pure _
  | cons a rest ih =>
      exact queries_run_bind (h a) fun _ => queries_run_bind ih fun _ => queries_run_pure _

/-- Following components only looks when the entries of directories are only looked at. -/
theorem queries_follow {visit : List SearchComponent → String → Path → SearchScript (List Path)}
    (hvisit : ∀ components name path, (visit components name path).run.Queries)
    (components : List SearchComponent) (path : Path) :
    (follow visit components path).run.Queries := by
  induction components generalizing path with
  | nil => exact queries_run_pure _
  | cons component rest ih =>
      have hentries : Script.Queries (ExceptT.run (do
          if (← kindOf path) = some .directory then
            let special ← collect (fun name => follow visit rest (Path.join path name))
              component.specialEntries
            let names ← namesIn path
            let entries ← collect
              (fun name => visit (component :: rest) name (entry path name)) names
            return special ++ entries
          else pure [])) := by
        refine queries_run_bind (queries_kindOf path) fun kind => ?_
        split
        next =>
          refine queries_run_bind (queries_collect (fun name => ih _) _) fun special => ?_
          refine queries_run_bind (queries_namesIn path) fun names => ?_
          exact queries_run_bind (queries_collect (fun name => hvisit _ _ _) _)
            fun entries => queries_run_pure _
        next => exact queries_run_pure _
      cases component with
      | named name =>
          unfold follow
          dsimp only
          split
          next =>
            refine queries_run_bind (queries_kindOf path) fun kind => ?_
            split
            next => exact ih _
            next => exact queries_run_pure _
          next =>
            refine queries_run_bind (queries_kindOf _) fun kind => ?_
            split
            next => exact ih _
            next => exact queries_run_pure _
      | pattern p => exact hentries
      | anyDirectories => exact hentries

theorem queries_visit (depth : Nat) (components : List SearchComponent) (name : String)
    (path : Path) : (visit depth components name path).run.Queries := by
  induction depth generalizing components name path with
  | zero => exact queries_run_pure _
  | succ depth ih =>
      have hmatching : ∀ (component : SearchComponent) (rest : List SearchComponent),
          Script.Queries (ExceptT.run
            (if component.accepts name then follow (visit depth) rest path else pure [])) := by
        intro component rest
        split
        next => exact queries_follow ih _ _
        next => exact queries_run_pure _
      unfold visit
      dsimp only
      split
      next rest =>
        refine queries_run_bind (queries_kindOf path) fun kind => ?_
        split
        next =>
          refine queries_run_bind (queries_follow ih _ _) fun below => ?_
          split
          next => exact queries_run_pure _
          next => exact queries_run_bind (hmatching _ _) fun _ => queries_run_pure _
        next =>
          refine queries_run_bind (queries_run_pure _) fun below => ?_
          split
          next => exact queries_run_pure _
          next => exact queries_run_bind (hmatching _ _) fun _ => queries_run_pure _
      next =>
        split
        next => exact queries_run_pure _
        next => exact hmatching _ _

theorem queries_ofKind (kind : FileKind) (paths : List Path) : (ofKind kind paths).run.Queries :=
  queries_collect (fun path => queries_run_bind (queries_kindOf path) fun _ => queries_run_pure _)
    paths

theorem queries_run (p : SearchPattern) : (run p).run.Queries := by
  refine queries_run_bind (queries_follow (queries_visit _) _ _) fun paths => ?_
  split
  next => exact queries_ofKind _ _
  next => exact queries_run_pure _

end SearchPattern

/-- Finding documents only looks. -/
theorem DocumentSource.queries_documents (source : DocumentSource) :
    source.documents.run.Queries := by
  have hresult : ∀ {α : Type} (result : Except Failure α),
      (ExceptT.mk (pure result) : SearchScript α).run.Queries := fun result => queries_pure _
  cases source with
  | listed paths => exact queries_run_pure _
  | search root includes excludes =>
      refine queries_run_bind (hresult _) fun excluded => ?_
      refine queries_run_bind (SearchPattern.queries_collect (fun pattern => ?_) _)
        fun found => queries_run_pure _
      refine queries_run_bind (hresult _) fun search => ?_
      refine queries_run_bind search.queries_run fun paths => ?_
      exact queries_run_bind (SearchPattern.queries_ofKind _ _) fun files => queries_run_pure _

/-- Getting the text of a document only looks. -/
theorem queries_readDocument (path : Path) : (readDocument path).Queries := by
  refine queries_bind (queries_request trivial) fun answer => ?_
  cases answer with
  | error why => exact queries_pure _
  | ok bytes =>
      dsimp only
      split <;> exact queries_pure _

variable {settings : RunSettings}

/-- Processing a document only looks when the run writes no documents. -/
theorem queries_processDocument (h : settings.writesDocuments = false) (path : Path) :
    (processDocument settings path).Queries := by
  rw [processDocument_eq]
  refine queries_bind (queries_readDocument _) fun answer => ?_
  cases answer with
  | error why => exact queries_pure _
  | ok t =>
      dsimp only
      cases hsettled : settled? settings path t with
      | some report => exact queries_pure _
      | none =>
          obtain ⟨-, hrepair, hdry, -⟩ := settled?_eq_none_iff.mp hsettled
          rw [RunSettings.writesDocuments, hrepair, hdry] at h
          cases h

theorem queries_processDocuments (h : settings.writesDocuments = false) (cancelled : Bool)
    (paths : List Path) : (processDocuments settings cancelled paths).Queries := by
  induction paths generalizing cancelled with
  | nil => exact queries_pure _
  | cons path rest ih =>
      rw [processDocuments_cons]
      have hdocument : (processUnless settings cancelled path).Queries := by
        unfold processUnless
        split
        next => exact queries_pure _
        next => exact queries_processDocument h path
      exact queries_bind hdocument fun _ => queries_bind (ih _) fun _ => queries_pure _

/-- A run that writes no documents only looks. -/
theorem queries_run (h : settings.writesDocuments = false) (source : DocumentSource)
    (tool : ToolInfo) (cancelled : Bool) : (run settings source tool cancelled).Queries := by
  unfold run
  rw [h]
  refine queries_bind (queries_request trivial) fun started => ?_
  refine queries_bind source.queries_documents fun found => ?_
  cases found with
  | error why => exact queries_pure _
  | ok paths =>
      refine queries_bind (queries_processDocuments h _ _) fun processed => ?_
      exact queries_bind (queries_request trivial) fun _ => queries_pure _

end MarkupRepair
