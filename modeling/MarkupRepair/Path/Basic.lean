/-!
# Paths

A path is kept as it is written, with `/` between its parts. Two paths are equal, and are
ordered, by their components: empty parts and `.` are no components, except for a `.` in
front of a relative path.
-/

namespace MarkupRepair

/-- A path as it is written. -/
abbrev Path := String

/-- What a part of a path stands for. -/
inductive PathComponent where
  /-- The `/` in front of an absolute path. -/
  | root
  /-- A `.` in front of a relative path. -/
  | current
  /-- A `..`. -/
  | parent
  /-- Any other name. -/
  | normal (name : String)
  deriving DecidableEq, Repr

namespace PathComponent

/-- Components of different kinds come in this order. -/
def rank : PathComponent → Nat
  | .root => 0
  | .current => 1
  | .parent => 2
  | .normal _ => 3

/-- The order of components; names are ordered by their bytes. -/
def compare : PathComponent → PathComponent → Ordering
  | .normal a, .normal b => Ord.compare a b
  | a, b => Ord.compare a.rank b.rank

end PathComponent

namespace Path

/-- Whether a path starts at the root of the file system. -/
def isAbsolute (p : Path) : Bool := p.toList.head? == some '/'

/-- A path inside a directory. An absolute path replaces the directory; otherwise a `/` goes
between the two unless the directory is empty or already ends with one. -/
def join (directory p : Path) : Path :=
  if isAbsolute p then p
  else
    match directory.toList.getLast? with
    | none => p
    | some '/' => directory ++ p
    | some _ => directory ++ "/" ++ p

/-- The parts of a path between its slashes, also the empty ones. -/
def splitParts : List Char → List (List Char)
  | [] => [[]]
  | c :: r =>
      if c = '/' then [] :: splitParts r
      else
        match splitParts r with
        | [] => [[c]]
        | part :: rest => (c :: part) :: rest

/-- The parts of a path. -/
def parts (p : Path) : List String := (splitParts p.toList).map String.ofList

/-- The component that a part stands for; `first` tells whether it is the first part of the
path. -/
def component? (first : Bool) (part : String) : Option PathComponent :=
  if part = "" then none
  else if part = "." then if first then some .current else none
  else if part = ".." then some .parent
  else some (.normal part)

/-- The parts of a path, each with the component it stands for. The empty part in front of an
absolute path stands for the root. -/
def labelledParts (p : Path) : List (String × Option PathComponent) :=
  match parts p with
  | [] => []
  | first :: rest =>
      let head :=
        if first = "" && !rest.isEmpty then some PathComponent.root else component? true first
      (first, head) :: rest.map fun part => (part, component? false part)

/-- The components of a path. -/
def components (p : Path) : List PathComponent := (labelledParts p).filterMap (·.2)

/-- The order of lists of components. -/
def compareComponents : List PathComponent → List PathComponent → Ordering
  | [], [] => .eq
  | [], _ :: _ => .lt
  | _ :: _, [] => .gt
  | a :: as, b :: bs => (PathComponent.compare a b).then (compareComponents as bs)

/-- The order of paths. -/
def compare (p q : Path) : Ordering := compareComponents (components p) (components q)

/-- Whether two paths have the same components. -/
def same (p q : Path) : Bool := compare p q == .eq

/-- Parts with a slash between any two; a lone root is a slash. -/
def ofParts : List (String × Option PathComponent) → Path
  | [(_, some .root)] => "/"
  | labelled => "/".intercalate (labelled.map (·.1))

/-- The parts of a path without those at its end that are no components. -/
def trimParts (labelled : List (String × Option PathComponent)) :
    List (String × Option PathComponent) :=
  (labelled.reverse.dropWhile (·.2.isNone)).reverse

/-- The directory that a path is in: the path without its last component. -/
def parent? (p : Path) : Option Path :=
  match (trimParts (labelledParts p)).reverse with
  | [] => none
  | (_, some .root) :: _ => none
  | _ :: rest => some (ofParts (trimParts rest.reverse))

/-- What remains of a list of parts once the given components are taken from its front. -/
def afterComponents? : List PathComponent → List (String × Option PathComponent) →
    Option (List (String × Option PathComponent))
  | [], labelled => some labelled
  | _ :: _, [] => none
  | wanted, (_, none) :: rest => afterComponents? wanted rest
  | c :: cs, (_, some d) :: rest => if c = d then afterComponents? cs rest else none

/-- A path seen from one of the directories it lies in, or nothing when its first components
are not those of the directory. -/
def relativeTo? (p directory : Path) : Option Path :=
  let wanted := components directory
  (afterComponents? wanted (labelledParts p)).map fun rest =>
    let rest := if wanted.isEmpty then rest else rest.dropWhile (·.2.isNone)
    ofParts (trimParts rest)

end Path

end MarkupRepair
