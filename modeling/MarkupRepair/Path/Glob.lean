/-!
# Glob patterns

A pattern for paths. `?` stands for any character, `*` for any characters, a set in brackets
for one of its characters or, after a `!`, for one of the others, and `**` for any number of
whole directories. Every other character stands for itself. Matched against a whole path, all
of these but `**` take a slash like any other character.
-/

namespace MarkupRepair

/-- A part of a pattern. -/
inductive GlobToken where
  /-- This character. -/
  | exactly (c : Char)
  /-- Any character. -/
  | anyChar
  /-- A character from one of these ranges. -/
  | oneOf (ranges : List (Char × Char))
  /-- A character from none of these ranges. -/
  | noneOf (ranges : List (Char × Char))
  /-- Any number of characters. -/
  | anySequence
  /-- Any number of directories with their slashes, or the rest of the path. -/
  | anyDirectories
  deriving DecidableEq, Repr

/-- Why a pattern is malformed. -/
inductive GlobFault where
  /-- More than two wildcards in a row. -/
  | tooManyWildcards
  /-- Something other than a slash next to a `**`. -/
  | partialDirectories
  /-- A set without its closing bracket. -/
  | openSet
  deriving DecidableEq, Repr

/-- A fault and the place of the character where it shows. -/
structure GlobError where
  /-- Number of characters before it. -/
  index : Nat
  /-- What is wrong. -/
  fault : GlobFault
  deriving DecidableEq, Repr

/-- The error in words. -/
def GlobError.message (e : GlobError) : String :=
  let reason := match e.fault with
    | .tooManyWildcards => "wildcards are either regular `*` or recursive `**`"
    | .partialDirectories => "recursive wildcards must form a single path component"
    | .openSet => "invalid range pattern"
  s!"Pattern syntax error near position {e.index}: {reason}"

namespace GlobToken

/-- The ranges in a set: two characters with a hyphen between them are a range, any other
character is one by itself. -/
def ranges : List Char → List (Char × Char)
  | low :: '-' :: high :: rest => (low, high) :: ranges rest
  | c :: rest => (c, c) :: ranges rest
  | [] => []

/-- The set that follows an opening bracket, and the number of its characters up to and
including the closing one. The first character of a set never closes it. -/
def readSet? : List Char → Option (GlobToken × Nat)
  | '!' :: first :: rest =>
      if rest.contains ']' then
        let inside := first :: rest.takeWhile (· != ']')
        some (.noneOf (ranges inside), inside.length + 2)
      else none
  | ['!'] => none
  | first :: rest =>
      if rest.contains ']' then
        let inside := first :: rest.takeWhile (· != ']')
        some (.oneOf (ranges inside), inside.length + 1)
      else none
  | [] => none

/-- The wildcards that stand at `index` between a previous character and `rest`, and the
number of characters that they take up. -/
def readWildcards (index count : Nat) (previous : Option Char) (rest : List Char) :
    Except GlobError (GlobToken × Nat) :=
  if count = 1 then .ok (.anySequence, 1)
  else if 2 < count then .error ⟨index + 2, .tooManyWildcards⟩
  else if previous.any (· != '/') then .error ⟨index - 1, .partialDirectories⟩
  else
    match rest with
    | [] => .ok (.anyDirectories, 2)
    | '/' :: _ => .ok (.anyDirectories, 3)
    | _ :: _ => .error ⟨index + 2, .partialDirectories⟩

/-- The token that starts with the character `c` at `index`, and the number of characters that
it takes up after that one. -/
def read (index : Nat) (previous : Option Char) (c : Char) (rest : List Char) :
    Except GlobError (GlobToken × Nat) :=
  match c with
  | '?' => .ok (.anyChar, 0)
  | '*' =>
      let more := rest.takeWhile (· == '*')
      (readWildcards index (more.length + 1) previous (rest.drop more.length)).map
        fun (token, size) => (token, size - 1)
  | '[' =>
      match readSet? rest with
      | some found => .ok found
      | none => .error ⟨index, .openSet⟩
  | c => .ok (.exactly c, 0)

/-- The tokens of the rest of a pattern. The first `skip` characters belong to a token already
read. -/
def readAll (index skip : Nat) (previous : Option Char) :
    List Char → Except GlobError (List GlobToken)
  | [] => .ok []
  | c :: rest =>
      match skip with
      | skip + 1 => readAll (index + 1) skip (some c) rest
      | 0 => do
          let (token, size) ← read index previous c rest
          return token :: (← readAll (index + 1) size (some c) rest)

/-- Whether a character is in one of the given ranges. -/
def inRanges (ranges : List (Char × Char)) (c : Char) : Bool :=
  ranges.any fun (low, high) => low ≤ c && c ≤ high

/-- Whether a token that stands for one character stands for this one. -/
def accepts (token : GlobToken) (c : Char) : Bool :=
  match token with
  | .exactly d => c == d
  | .anyChar => true
  | .oneOf ranges => inRanges ranges c
  | .noneOf ranges => !inRanges ranges c
  | .anySequence | .anyDirectories => false

/-- A text and all its ends. -/
def ends : List Char → List (List Char)
  | [] => [[]]
  | c :: r => (c :: r) :: ends r

/-- What follows each slash of a text. -/
def afterSlashes : List Char → List (List Char)
  | [] => []
  | c :: r => if c = '/' then r :: afterSlashes r else afterSlashes r

/-- Whether tokens stand for a text as a whole. -/
def matchAll : List GlobToken → List Char → Bool
  | [], t => t.isEmpty
  | .anySequence :: rest, t => (ends t).any (matchAll rest)
  | .anyDirectories :: rest, t =>
      matchAll rest t || (afterSlashes t).any (matchAll rest) || matchAll rest []
  | _ :: _, [] => false
  | token :: rest, c :: r => token.accepts c && matchAll rest r

end GlobToken

/-- A pattern for whole paths. -/
structure GlobPattern where
  /-- Its parts in order. -/
  tokens : List GlobToken
  deriving DecidableEq, Repr

namespace GlobPattern

/-- Read a pattern. -/
def parse (pattern : String) : Except GlobError GlobPattern :=
  (GlobToken.readAll 0 0 none pattern.toList).map .mk

/-- Whether a path matches. -/
def accepts (p : GlobPattern) (path : String) : Bool := GlobToken.matchAll p.tokens path.toList

/-- The text that a pattern without any wildcards stands for. -/
def literal? (p : GlobPattern) : Option String :=
  (p.tokens.mapM fun
    | GlobToken.exactly c => some c
    | _ => none).map String.ofList

/-- A pattern of plain characters accepts the text they spell and no other. -/
theorem matchAll_exactly (s t : List Char) :
    GlobToken.matchAll (s.map .exactly) t = true ↔ t = s := by
  induction s generalizing t with
  | nil => cases t <;> simp [GlobToken.matchAll]
  | cons c r ih =>
      cases t with
      | nil => simp [GlobToken.matchAll]
      | cons d u => simp [GlobToken.matchAll, GlobToken.accepts, ih]

end GlobPattern

end MarkupRepair
