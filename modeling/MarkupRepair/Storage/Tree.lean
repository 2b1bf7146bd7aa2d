import MarkupRepair.Storage.Script

/-!
# A tree of files

Files and directories below a working directory, and the answers to requests that a system
with such a tree gives. A path is resolved part by part: every part but the last has to be a
directory, a full stop stays, two full stops go back, and a slash at the end asks for a
directory. Nothing exists outside the working directory.
-/

namespace MarkupRepair

/-- Why a system refuses to do something. -/
inductive SystemError where
  | notFound
  | exists
  | notDirectory
  | isDirectory
  deriving DecidableEq, Repr

/-- The error in words. -/
def SystemError.message : SystemError → String
  | .notFound => "No such file or directory (os error 2)"
  | .exists => "File exists (os error 17)"
  | .notDirectory => "Not a directory (os error 20)"
  | .isDirectory => "Is a directory (os error 21)"

/-- What a tree holds at one place. -/
inductive TreeNode where
  /-- A file with these bytes. -/
  | file (bytes : ByteArray)
  /-- A directory. -/
  | directory

/-- A place in a tree: the names that lead to it. -/
abbrev Place := List String

/-- The nodes of a tree by place. The working directory itself is not listed. -/
abbrev Tree := List (Place × TreeNode)

namespace Tree

/-- What stands at a place. -/
def nodeAt? (t : Tree) (place : Place) : Option TreeNode :=
  if place.isEmpty then some .directory else t.lookup place

/-- The tree without what stands at a place. -/
def erase (t : Tree) (place : Place) : Tree := t.filter fun entry => entry.1 != place

/-- The tree with a node at a place. -/
def put (t : Tree) (place : Place) (node : TreeNode) : Tree := (place, node) :: t.erase place

/-- The names in a directory. -/
def namesIn (t : Tree) (place : Place) : List String :=
  t.filterMap fun entry =>
    if entry.1.dropLast = place then entry.1.getLast? else none

/-- Where a path leads. -/
structure Target where
  /-- The place. -/
  place : Place
  /-- What stands there. -/
  node : Option TreeNode
  /-- Whether the path asks for a directory. -/
  asksDirectory : Bool

/-- Follow the parts of a path from a directory. -/
def followParts (t : Tree) (place : Place) : List String → Except SystemError Target
  | [] => .ok ⟨place, some .directory, true⟩
  | part :: rest =>
      if part = "" || part = "." then followParts t place rest
      else if part = ".." then
        if place.isEmpty then .error .notFound else followParts t place.dropLast rest
      else
        let next := place ++ [part]
        match t.nodeAt? next with
        | some .directory => followParts t next rest
        | some (.file bytes) =>
            if rest.isEmpty then .ok ⟨next, some (.file bytes), false⟩ else .error .notDirectory
        | none =>
            if rest.all (· == "") then .ok ⟨next, none, !rest.isEmpty⟩ else .error .notFound

/-- Resolve a path. -/
def resolve (t : Tree) (path : Path) : Except SystemError Target :=
  if path = "" || Path.isAbsolute path then .error .notFound
  else t.followParts [] (Path.parts path)

/-- What stands at a path. -/
def kindOf (t : Tree) (path : Path) : Option FileKind :=
  match t.resolve path with
  | .ok ⟨_, some (.file _), _⟩ => some .file
  | .ok ⟨_, some .directory, _⟩ => some .directory
  | _ => none

/-- The bytes of the file at a path. -/
def bytesAt (t : Tree) (path : Path) : Except SystemError ByteArray := do
  match (← t.resolve path).node with
  | some (.file bytes) => return bytes
  | some .directory => throw .isDirectory
  | none => throw .notFound

/-- Put bytes in place of the file at a path, or create it. -/
def writeAt (t : Tree) (path : Path) (bytes : ByteArray) : Except SystemError Tree := do
  let target ← t.resolve path
  match target.node with
  | some .directory => throw .isDirectory
  | some (.file _) => return t.put target.place (.file bytes)
  | none =>
      if target.asksDirectory then throw .isDirectory
      else return t.put target.place (.file bytes)

/-- Create a file at a path that must be free. -/
def createAt (t : Tree) (path : Path) : Except SystemError Tree := do
  let target ← t.resolve path
  if target.node.isSome then throw .exists
  else if target.asksDirectory then throw .isDirectory
  else return t.put target.place (.file ByteArray.empty)

/-- Remove the file at a path. -/
def removeAt (t : Tree) (path : Path) : Except SystemError Tree := do
  let target ← t.resolve path
  match target.node with
  | some .directory => throw .isDirectory
  | some (.file _) => return t.erase target.place
  | none => throw .notFound

/-- Create one directory. -/
def makeOne (t : Tree) (path : Path) : Except SystemError Tree := do
  let target ← t.resolve path
  if target.node.isSome then throw .exists else return t.put target.place .directory

/-- Create a directory with those it needs; what is created stays when a later step fails.
`depth` bounds the number of directories above it. -/
def makeAll : (depth : Nat) → Tree → Path → Except SystemError Unit × Tree
  | 0, t, _ => (.error .notFound, t)
  | depth + 1, t, path =>
      let settle (t : Tree) : Except SystemError Unit × Tree :=
        match t.makeOne path with
        | .ok t => (.ok (), t)
        | .error why => (if t.kindOf path = some .directory then .ok () else .error why, t)
      if path = "" then (.ok (), t)
      else
        match t.makeOne path, Path.parent? path with
        | .error .notFound, some parent =>
            match makeAll depth t parent with
            | (.ok (), t) => settle t
            | failed => failed
        | _, _ => settle t

/-- Create a directory with those it needs, unless it exists. -/
def makeDirectory (t : Tree) (path : Path) : Except SystemError Unit × Tree :=
  makeAll (path.length + 1) t path

/-- A failure to do something, caused by a refusal of the system. -/
def failure (doing action : String) (path : Path) (why : SystemError) : Failure :=
  ⟨doing, [s!"failed to {action} `{path}`: {why.message}"]⟩

/-- The failure to read a file. -/
def readFailure (path : Path) (why : SystemError) : Failure :=
  let action := if why = .isDirectory then "read from file" else "open file"
  failure s!"read {path}" action path why

/-- The outcome of a change that leaves the tree as it is when it fails. -/
def changed (t : Tree) (describe : SystemError → Failure) :
    Except SystemError Tree → Except Failure Unit × Tree
  | .ok next => (.ok (), next)
  | .error why => (.error (describe why), t)

/-- Change a tree once the directory that a path is in has been created; `doing` says what that
is done for. -/
def withParent (t : Tree) (path : Path) (doing : Path → String)
    (change : Tree → Except Failure Unit × Tree) : Except Failure Unit × Tree :=
  match Path.parent? path with
  | none => change t
  | some parent =>
      match t.makeDirectory parent with
      | (.ok (), t) => change t
      | (.error why, t) => (.error (failure (doing parent) "create directory" parent why), t)

/-- Write a file. -/
def write (t : Tree) (path : Path) (bytes : ByteArray) : Except Failure Unit × Tree :=
  t.changed (failure s!"write {path}" "create file" path) (t.writeAt path bytes)

/-- Copy a file. -/
def copy (t : Tree) (source target : Path) : Except Failure Unit × Tree :=
  t.changed (failure s!"copy {source} -> {target}" "copy file to" target)
    (t.bytesAt source >>= t.writeAt target)

/-- The answers of a system with a tree of files, whose clock stands still. -/
def answer : (r : Request) → Tree → r.Answer × Tree
  | .read path, t => ((t.bytesAt path).mapError (readFailure path), t)
  | .write path bytes, t => t.write path bytes
  | .copy source target, t =>
      t.withParent target (fun parent => s!"create dir {parent}") (·.copy source target)
  | .remove path, t => t.changed (failure s!"remove {path}" "remove file" path) (t.removeAt path)
  | .isPresent path, t => ((t.kindOf path).isSome, t)
  | .claim path, t =>
      match t.createAt path with
      | .ok t => (.ok (), t)
      | .error .exists => (.error .held, t)
      | .error why => (.error (.failed (failure s!"create lock {path}" "open file" path why)), t)
  | .release path, t => ((), (t.removeAt path).toOption.getD t)
  | .kindOf path, t => (t.kindOf path, t)
  | .list path, t =>
      match t.resolve path with
      | .ok ⟨place, some .directory, _⟩ => (.ok (t.namesIn place), t)
      | .ok ⟨_, some (.file _), _⟩ => (.error ⟨SystemError.notDirectory.message, []⟩, t)
      | .ok ⟨_, none, _⟩ => (.error ⟨SystemError.notFound.message, []⟩, t)
      | .error why => (.error ⟨why.message, []⟩, t)
  | .makeDirectory path, t =>
      match t.makeDirectory path with
      | (.ok (), t) => (.ok (), t)
      | (.error why, t) =>
          (.error (failure s!"create_dir_all {path}" "create directory" path why), t)
  | .publish path bytes, t =>
      t.withParent path (fun _ => s!"create parent dir for {path}") (·.write path bytes)
  | .now, t => (⟨0⟩, t)

/-- A tree of files as a host of scripts. -/
def host : Host Tree := ⟨answer⟩

/-- The files of a tree with their paths. -/
def files (t : Tree) : List (Path × ByteArray) :=
  t.filterMap fun
    | (place, .file bytes) => some ("/".intercalate place, bytes)
    | (_, .directory) => none

end Tree

end MarkupRepair
