import MarkupRepair.Storage.Search
import MarkupRepair.Text.Quoted

/-!
# Finding documents

The documents of a run are either listed or looked for below a root. Either way the result is
sorted, and of several spellings of one path only one is kept.
-/

namespace MarkupRepair

namespace Path

/-- Whether a path comes before another, or has the same components. -/
def atOrBefore (p q : Path) : Bool := compare p q != .gt

/-- The list with a path added, unless a path with the same components is there. -/
def addNew (paths : List Path) (p : Path) : List Path :=
  if paths.any (same p) then paths else paths ++ [p]

/-- The paths of a list without spellings of later ones. -/
def keepLast : List Path → List Path
  | [] => []
  | p :: rest => if rest.any (same p) then keepLast rest else p :: keepLast rest

end Path

/-- Where the documents of a run come from. -/
inductive DocumentSource where
  /-- From a list; of several spellings of one path the last is kept. -/
  | listed (paths : List Path)
  /-- From a search below a root; of several spellings of one path the first is kept. -/
  | search (root : Path) (includes excludes : List String)
  deriving DecidableEq, Repr

namespace DocumentSource

/-- The patterns of documents to leave out. -/
def excludePatterns (excludes : List String) : Except Failure (List GlobPattern) :=
  excludes.mapM fun pattern => (GlobPattern.parse pattern).mapError fun why =>
    ⟨s!"invalid exclude pattern {quotedText pattern}", [why.message]⟩

/-- The files that a pattern finds below a root, seen from the root. A path that does not lie in
the root as it is written is kept whole. -/
def filesMatching (root : Path) (pattern : String) : SearchScript (List Path) := do
  let search ← ExceptT.mk (pure ((SearchPattern.parse (Path.join root pattern)).mapError
    fun why => Failure.mk s!"glob {pattern}" [why.message]))
  let files ← SearchPattern.ofKind .file (← search.run)
  return files.map fun path => (Path.relativeTo? path root).getD path

/-- The documents of a source in order. -/
def documents : DocumentSource → SearchScript (List Path)
  | .listed paths => return (Path.keepLast paths).mergeSort Path.atOrBefore
  | .search root includes excludes => do
      let excluded ← ExceptT.mk (pure (excludePatterns excludes))
      let found ← SearchPattern.collect (filesMatching root) includes
      let kept := found.filter fun path => !excluded.any (·.accepts path)
      return (kept.foldl Path.addNew []).mergeSort Path.atOrBefore

end DocumentSource

end MarkupRepair
