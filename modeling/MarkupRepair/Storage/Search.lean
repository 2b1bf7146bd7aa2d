import MarkupRepair.Path.Glob
import MarkupRepair.Storage.Script

/-!
# Searching for paths

A search walks a tree of directories along the components of a pattern. A component without
wildcards is looked up by its name; a component with wildcards is compared with every name in
a directory; `**` stands for any number of directories.
-/

namespace MarkupRepair

/-- A component of a search pattern. -/
inductive SearchComponent where
  /-- This name. -/
  | named (name : String)
  /-- Every name that a pattern accepts. -/
  | pattern (pattern : GlobPattern)
  /-- Any number of directories. -/
  | anyDirectories
  deriving DecidableEq, Repr

namespace SearchComponent

/-- The component of a pattern without slashes. -/
def ofPattern (p : GlobPattern) : SearchComponent :=
  match p.literal? with
  | some name => .named name
  | none => if p.tokens.contains .anyDirectories then .anyDirectories else .pattern p

/-- Whether a component stands for this name of a directory entry. -/
def accepts (c : SearchComponent) (name : String) : Bool :=
  match c with
  | .named s => s == name
  | .pattern p => p.accepts name
  | .anyDirectories => false

/-- The special directory entries that a component stands for: they are never listed, and only
a pattern that begins with a full stop stands for them. -/
def specialEntries : SearchComponent → List String
  | .pattern p =>
      if p.tokens.head? = some (.exactly '.') then [".", ".."].filter p.accepts else []
  | _ => []

end SearchComponent

/-- A script that may fail. -/
abbrev SearchScript (α : Type) := ExceptT Failure Script α

/-- A search pattern. -/
structure SearchPattern where
  /-- Where the search starts. -/
  start : Path
  /-- The components to follow from there. -/
  components : List SearchComponent
  /-- Whether only directories are looked for. -/
  directoriesOnly : Bool
  deriving DecidableEq, Repr

namespace SearchPattern

/-- Read a search pattern. The pattern as a whole has to be well-formed, and each of its
components by itself. A slash at the end asks for directories. -/
def parse (pattern : String) : Except GlobError SearchPattern := do
  let _ ← GlobPattern.parse pattern
  let isAbsolute := Path.isAbsolute pattern
  let relative := if isAbsolute then pattern.toList.dropWhile (· == '/') else pattern.toList
  let parts := Path.splitParts relative
  let parts := if parts.getLast? = some [] && 1 < parts.length then parts.dropLast else parts
  let patterns ← parts.mapM fun part => GlobPattern.parse (String.ofList part)
  return {
    start := if isAbsolute then "/" else "."
    components := patterns.map .ofPattern
    directoriesOnly := pattern.toList.getLast? == some '/' }

/-- What stands at a path. -/
def kindOf (path : Path) : SearchScript (Option FileKind) :=
  ExceptT.lift (Script.request (.kindOf path))

/-- The names in a directory in the order of their bytes. -/
def namesIn (directory : Path) : SearchScript (List String) :=
  ExceptT.mk (Script.request (.list directory) >>= fun answer => pure (match answer with
    | .ok names => .ok (names.mergeSort fun a b => !decide (b < a))
    | .error why => .error
        ⟨s!"glob error: attempting to read `{directory}` resulted in an error: {why.full}", []⟩))

/-- An entry of a directory; the entries of the working directory go by their bare names. -/
def entry (directory : Path) (name : String) : Path :=
  if Path.same directory "." then name else Path.join directory name

/-- The paths of a script for every member of a list, in order. -/
def collect {α : Type} (found : α → SearchScript (List Path)) :
    List α → SearchScript (List Path)
  | [] => pure []
  | a :: rest => do
      let here ← found a
      let further ← collect found rest
      return here ++ further

/-- The paths that components lead to from `path`. The entries of a directory are left to
`visit`, which is given the components to follow, the name of an entry and its path. -/
def follow (visit : List SearchComponent → String → Path → SearchScript (List Path)) :
    List SearchComponent → Path → SearchScript (List Path)
  | [], path => pure [path]
  | .named name :: rest, path => do
      let next := entry path name
      if name = "." || name = ".." then
        if (← kindOf path) = some .directory then follow visit rest next else pure []
      else
        if (← kindOf next).isSome then follow visit rest next else pure []
  | component :: rest, path => do
      if (← kindOf path) = some .directory then
        let special ← collect (fun name => follow visit rest (Path.join path name))
          component.specialEntries
        let names ← namesIn path
        let entries ← collect
          (fun name => visit (component :: rest) name (entry path name)) names
        return special ++ entries
      else pure []

/-- The paths at or below an entry of a directory that components lead to, within a number of
directories. -/
def visit : (depth : Nat) → List SearchComponent → String → Path → SearchScript (List Path)
  | 0, _, _, _ => pure []
  | depth + 1, components, name, path => do
      let matching : List SearchComponent → SearchScript (List Path)
        | [] => pure []
        | component :: rest =>
            if component.accepts name then follow (visit depth) rest path else pure []
      match components with
      | .anyDirectories :: rest =>
          let rest := rest.dropWhile (· = .anyDirectories)
          let isDirectory := (← kindOf path) = some .directory
          let below ←
            if isDirectory then follow (visit depth) (.anyDirectories :: rest) path else pure []
          match rest with
          | [] => return (if isDirectory then [path] else []) ++ below
          | _ :: _ => return below ++ (← matching rest)
      | components => matching components

/-- The size in bytes of the longest path, which also bounds the depth of directories. -/
def longestPath : Nat := 4096

/-- The paths at which something of a given kind stands. -/
def ofKind (kind : FileKind) (paths : List Path) : SearchScript (List Path) :=
  collect (fun path => do return if (← kindOf path) = some kind then [path] else []) paths

/-- The paths that match a search pattern. -/
def run (p : SearchPattern) : SearchScript (List Path) := do
  let paths ← follow (visit longestPath) p.components p.start
  if p.directoriesOnly then ofKind .directory paths else return paths

end SearchPattern

end MarkupRepair
