import MarkupRepair.Text.Utf8

/-!
# Bytes of a text

The UTF-8 form of a text has the bytes of its characters in order, so an offset in it is one of the
text. A line feed is a byte of no other character. Blanking stretches of a document makes a space
of each byte in them that is not a line feed, and leaves every other byte as it is.
-/

namespace MarkupRepair

namespace Text

/-- The byte of a line feed. -/
def lineFeed : UInt8 := 10

/-- The byte of a space. -/
def blank : UInt8 := 32

/-- What a byte is blanked to. -/
def blanked (b : UInt8) : UInt8 := if b = lineFeed then lineFeed else blank

theorem blanked_eq_lineFeed_iff {b : UInt8} : blanked b = lineFeed ↔ b = lineFeed := by
  unfold blanked
  by_cases hb : b = lineFeed
  · rw [if_pos hb, hb]
  · have hne : blank ≠ lineFeed := by
      decide
    rw [if_neg hb]
    exact ⟨fun h => absurd h hne, fun h => absurd h hb⟩

theorem blanked_eq_or (b : UInt8) : blanked b = blank ∨ blanked b = lineFeed := by
  unfold blanked
  split
  · exact .inr rfl
  · exact .inl rfl

/-- The byte of a text at an offset. -/
def byte? (t : Text) (offset : Nat) : Option UInt8 := (encode t).data[offset]?

section Bytes

variable {t : Text} {c : Char} {offset : Nat}

theorem byte?_eq (t : Text) (offset : Nat) :
    byte? t offset = (t.flatMap String.utf8EncodeChar)[offset]? := by
  rw [byte?, ← Array.getElem?_toList]
  simp [encode, List.utf8Encode]

theorem size_eq_length (t : Text) : size t = (t.flatMap String.utf8EncodeChar).length := by
  induction t with
  | nil => rfl
  | cons c r ih => simp [ih]

theorem size_encode (t : Text) : (encode t).size = size t := by
  rw [size_eq_length]
  simp [encode, List.utf8Encode]

theorem byte?_append (a b : Text) (offset : Nat) : byte? (a ++ b) offset =
    if offset < size a then byte? a offset else byte? b (offset - size a) := by
  simp only [byte?_eq, size_eq_length, List.flatMap_append, List.getElem?_append]

theorem byte?_cons (c : Char) (r : Text) (offset : Nat) : byte? (c :: r) offset =
    if offset < c.utf8Size then (String.utf8EncodeChar c)[offset]?
      else byte? r (offset - c.utf8Size) := by
  rw [byte?_eq, byte?_eq, List.flatMap_cons, List.getElem?_append, String.length_utf8EncodeChar]

theorem byte?_eq_none_iff : byte? t offset = none ↔ size t ≤ offset := by
  rw [byte?_eq, size_eq_length, List.getElem?_eq_none_iff]

/-- A line feed is a byte of no other character. -/
theorem lineFeed_not_mem_utf8EncodeChar (hc : c ≠ '\n') :
    lineFeed ∉ String.utf8EncodeChar c := by
  have hvalue : c.val.toNat ≠ 10 := by
    intro h
    apply hc
    exact Char.ext (UInt32.toNat_inj.mp h)
  have hbyte : ∀ n, lineFeed = UInt8.ofNat n ↔ 10 = n % 256 := by
    intro n
    rw [← UInt8.toNat_inj, UInt8.toNat_ofNat']
    rfl
  intro hmem
  unfold String.utf8EncodeChar at hmem
  dsimp only at hmem
  repeat' split at hmem
  all_goals
    simp only [List.mem_cons, List.not_mem_nil, or_false, hbyte] at hmem
    omega

/-- As many spaces as a character has bytes. -/
theorem byte?_replicate_blank (n offset : Nat) :
    byte? (List.replicate n ' ') offset = if offset < n then some blank else none := by
  have hspace : String.utf8EncodeChar ' ' = [blank] := rfl
  rw [byte?_eq, List.flatMap_replicate, hspace, List.flatten_replicate_singleton,
    List.getElem?_replicate]

end Bytes

end Text

/-- Whether the byte at an offset is inside of a span. -/
def Span.Has (s : Span) (offset : Nat) : Prop := s.start ≤ offset ∧ offset < s.stop

section Blanks

/-- Whether bytes are those of a document with stretches blanked. -/
structure Blanks (spans : List Span) (bytes result : ByteArray) : Prop where
  /-- Every byte keeps its offset. -/
  size : result.size = bytes.size
  /-- The line feeds are where they were. -/
  feeds : ∀ n : Nat, result.data[n]? = some Text.lineFeed ↔ bytes.data[n]? = some Text.lineFeed
  /-- Bytes outside of the stretches are as they were. -/
  outside : ∀ n : Nat, (∀ s ∈ spans, ¬ s.Has n) → result.data[n]? = bytes.data[n]?
  /-- Only spaces and line feeds are inside of the stretches. -/
  inside : ∀ s ∈ spans, ∀ n : Nat, s.Has n →
    result.data[n]? = some Text.blank ∨ result.data[n]? = some Text.lineFeed

variable {spans : List Span} {bytes result other : ByteArray}

/-- There is one way to blank stretches of a document. -/
theorem Blanks.eq (h : Blanks spans bytes result) (hother : Blanks spans bytes other) :
    result = other := by
  apply ByteArray.ext
  apply Array.ext_getElem?
  intro n
  by_cases hn : ∃ s ∈ spans, s.Has n
  · obtain ⟨s, hs, hhas⟩ := hn
    by_cases hfeed : bytes.data[n]? = some Text.lineFeed
    · rw [(h.feeds n).mpr hfeed, (hother.feeds n).mpr hfeed]
    · rw [(h.inside s hs n hhas).resolve_right (mt (h.feeds n).mp hfeed),
        (hother.inside s hs n hhas).resolve_right (mt (hother.feeds n).mp hfeed)]
  · have houtside : ∀ s ∈ spans, ¬ s.Has n := fun s hs hhas => hn ⟨s, hs, hhas⟩
    rw [h.outside n houtside, hother.outside n houtside]

end Blanks

end MarkupRepair
