import MarkupRepair.Text.Basic

/-!
# Texts and bytes

The UTF-8 form of a text, reading a text from bytes, and the first place at which bytes are
not UTF-8. A fault is either a sequence that no continuation could complete, with the number
of bytes it spoils, or the end of the input in the middle of a character.
-/

namespace MarkupRepair

/-- The UTF-8 form of a text. -/
def Text.encode (t : Text) : ByteArray := (String.ofList t).toUTF8

/-- The text of bytes that are UTF-8. -/
def Text.decode? (bytes : ByteArray) : Option Text := (String.fromUTF8? bytes).map String.toList

/-- Reading back a string. -/
theorem fromUTF8?_toUTF8 (s : String) : String.fromUTF8? s.toUTF8 = some s := by
  unfold String.fromUTF8? String.toUTF8
  rw [dif_pos s.isValidUTF8]
  rfl

/-- Reading back a written text. -/
@[simp] theorem Text.decode?_encode (t : Text) : Text.decode? (Text.encode t) = some t := by
  rw [Text.decode?, Text.encode, fromUTF8?_toUTF8, Option.map_some, String.toList_ofList]

/-- Only the UTF-8 form of a text is read as that text. -/
theorem Text.encode_of_decode? {bytes : ByteArray} {t : Text} (h : Text.decode? bytes = some t) :
    Text.encode t = bytes := by
  unfold Text.decode? String.fromUTF8? at h
  split at h
  · simp only [Option.map_some, Option.some.injEq] at h
    subst h
    simp [Text.encode, String.fromUTF8]
  · simp at h

/-- Where and how bytes stop being UTF-8. -/
structure Utf8Fault where
  /-- Number of bytes before the fault. -/
  index : Nat
  /-- Number of bytes that are wrong, or nothing when the input ends too early. -/
  length : Option Nat
  deriving DecidableEq, Repr

namespace Utf8Fault

/-- Whether a byte continues a character. -/
def continues (b : UInt8) : Bool := 0x80 ≤ b && b ≤ 0xBF

/-- The bytes that may follow the first byte of a character, given as one range for the second
byte and a number of further continuation bytes; nothing when no character starts so. -/
def expectation? (b : UInt8) : Option (UInt8 × UInt8 × Nat) :=
  if 0xC2 ≤ b && b ≤ 0xDF then some (0x80, 0xBF, 0)
  else if b == 0xE0 then some (0xA0, 0xBF, 1)
  else if b == 0xED then some (0x80, 0x9F, 1)
  else if 0xE1 ≤ b && b ≤ 0xEF then some (0x80, 0xBF, 1)
  else if b == 0xF0 then some (0x90, 0xBF, 2)
  else if 0xF1 ≤ b && b ≤ 0xF3 then some (0x80, 0xBF, 2)
  else if b == 0xF4 then some (0x80, 0x8F, 2)
  else none

/-- Where a reader of bytes stands. -/
inductive State where
  /-- Between characters. -/
  | start
  /-- Inside a character: the bytes read of it, the range of the next byte, and the number of
  continuation bytes after that one. -/
  | inside (read : Nat) (low high : UInt8) (more : Nat)
  deriving DecidableEq, Repr

/-- The fault of the remaining bytes; `index` counts the bytes of whole characters so far. -/
def findFrom (index : Nat) : State → List UInt8 → Option Utf8Fault
  | .start, [] => none
  | .inside _ _ _ _, [] => some ⟨index, none⟩
  | .start, b :: r =>
      if b < 0x80 then findFrom (index + 1) .start r
      else
        match expectation? b with
        | some (low, high, more) => findFrom index (.inside 1 low high more) r
        | none => some ⟨index, some 1⟩
  | .inside read low high more, b :: r =>
      if low ≤ b && b ≤ high then
        match more with
        | 0 => findFrom (index + read + 1) .start r
        | more + 1 => findFrom index (.inside (read + 1) 0x80 0xBF more) r
      else some ⟨index, some read⟩

/-- The first fault of bytes. -/
def find? (bytes : ByteArray) : Option Utf8Fault := findFrom 0 .start bytes.toList

/-- The fault in words. -/
def message (f : Utf8Fault) : String :=
  match f.length with
  | some n => s!"invalid utf-8 sequence of {n} bytes from index {f.index}"
  | none => s!"incomplete utf-8 byte sequence from index {f.index}"

end Utf8Fault

end MarkupRepair
