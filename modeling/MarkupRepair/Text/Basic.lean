import MarkupRepair.Text.WhiteSpace

/-!
# Text measured in bytes

A text is a list of characters. Every offset, column and length counts bytes of its UTF-8
form, so this file says how long a text is, which offsets fall between two characters, and
what a text is before an offset, after it, and with a stretch of it exchanged.
-/

namespace MarkupRepair

/-- The characters of a document, or of a part of one, in order. -/
abbrev Text := List Char

/-- A stretch of a text from byte offset `start` up to, not including, `stop`. -/
structure Span where
  /-- Offset of the first byte. -/
  start : Nat
  /-- Offset just past the last byte. -/
  stop : Nat
  deriving DecidableEq, Repr

/-- A place in a text: a line and a byte column in it, both counted from one. -/
structure Position where
  /-- Line, from one. -/
  line : Nat
  /-- Byte column in the line, from one. -/
  column : Nat
  deriving DecidableEq, Repr

namespace Text

/-- Number of bytes of the UTF-8 form. -/
def size : Text → Nat
  | [] => 0
  | c :: r => c.utf8Size + size r

@[simp] theorem size_nil : size [] = 0 := rfl

@[simp] theorem size_cons (c : Char) (r : Text) : size (c :: r) = c.utf8Size + size r := rfl

@[simp] theorem size_append (a b : Text) : size (a ++ b) = size a + size b := by
  induction a with
  | nil => simp
  | cons c r ih => simp [ih, Nat.add_assoc]

/-- What is left of a text once the characters within its first `n` bytes are gone. -/
def dropBytes : Nat → Text → Text
  | _, [] => []
  | n, c :: r => if c.utf8Size ≤ n then dropBytes (n - c.utf8Size) r else c :: r

/-- The characters that lie wholly within the first `n` bytes of a text. -/
def takeBytes : Nat → Text → Text
  | _, [] => []
  | n, c :: r => if c.utf8Size ≤ n then c :: takeBytes (n - c.utf8Size) r else []

/-- Cutting a text at an offset loses nothing. -/
theorem takeBytes_append_dropBytes (n : Nat) (t : Text) : takeBytes n t ++ dropBytes n t = t := by
  induction t generalizing n with
  | nil => rfl
  | cons c r ih =>
      simp only [takeBytes, dropBytes]
      split
      · simp [ih]
      · rfl

/-- Cutting just past a part of a text leaves the rest. -/
@[simp] theorem dropBytes_size_append (a b : Text) : dropBytes (size a) (a ++ b) = b := by
  induction a with
  | nil =>
      cases b with
      | nil => rfl
      | cons c r => simp [dropBytes, Nat.not_le.mpr c.utf8Size_pos]
  | cons c r ih => simp [dropBytes, ih]

/-- Cutting just past a part of a text takes that part. -/
@[simp] theorem takeBytes_size_append (a b : Text) : takeBytes (size a) (a ++ b) = a := by
  have h := takeBytes_append_dropBytes (size a) (a ++ b)
  rw [dropBytes_size_append] at h
  exact List.append_cancel_right h

/-- Whether an offset falls between two characters, at the start, or at the end. -/
def isBoundary : Nat → Text → Bool
  | 0, _ => true
  | _ + 1, [] => false
  | n + 1, c :: r => c.utf8Size ≤ n + 1 && isBoundary (n + 1 - c.utf8Size) r

/-- The part of a text inside a span. -/
def slice (t : Text) (s : Span) : Text := takeBytes (s.stop - s.start) (dropBytes s.start t)

/-- The part of a text inside a span whose ends are in order and fall between characters. -/
def slice? (t : Text) (s : Span) : Option Text :=
  if s.start ≤ s.stop && isBoundary s.start t && isBoundary s.stop t then some (slice t s)
  else none

/-- The rest of a text from an offset that falls between two characters. -/
def from? (t : Text) (offset : Nat) : Option Text :=
  if isBoundary offset t then some (dropBytes offset t) else none

/-- The text with the stretch inside a span exchanged for another. -/
def splice (t : Text) (s : Span) (replacement : Text) : Text :=
  takeBytes s.start t ++ replacement ++ dropBytes s.stop t

/-- Exchanging the middle of three parts. -/
theorem splice_append (a b c r : Text) :
    splice (a ++ (b ++ c)) ⟨size a, size a + size b⟩ r = a ++ r ++ c := by
  have h : dropBytes (size a + size b) (a ++ (b ++ c)) = c := by
    rw [← size_append, ← List.append_assoc, dropBytes_size_append]
  simp [splice, h]

/-- The text after a given beginning, when it begins so. -/
def afterPrefix? : (beginning : Text) → Text → Option Text
  | [], t => some t
  | _ :: _, [] => none
  | a :: p, c :: t => if a = c then afterPrefix? p t else none

theorem afterPrefix?_eq_some_iff {p t r : Text} : afterPrefix? p t = some r ↔ t = p ++ r := by
  induction p generalizing t with
  | nil => simp [afterPrefix?]
  | cons a p ih =>
      cases t with
      | nil => simp [afterPrefix?]
      | cons c t =>
          by_cases h : a = c
          · simp [afterPrefix?, h, ih]
          · simp [afterPrefix?, h, Ne.symm h]

/-- Whether a text begins with another. -/
def startsWith (t beginning : Text) : Bool := (afterPrefix? beginning t).isSome

/-- Byte offset of the first occurrence of a mark. -/
def find? (mark : Text) : Text → Option Nat
  | [] => if mark.isEmpty then some 0 else none
  | c :: r =>
      if startsWith (c :: r) mark then some 0 else (find? mark r).map (c.utf8Size + ·)

/-- Letters A to Z written small, all else as it is. -/
def toLowerAscii (t : Text) : Text := t.map Char.toLower

end Text

end MarkupRepair
