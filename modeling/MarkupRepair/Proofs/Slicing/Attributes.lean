import MarkupRepair.Markup.Scan
import MarkupRepair.Proofs.Markup.Tokens
import MarkupRepair.Proofs.Markup.Reading
import MarkupRepair.Proofs.Slicing.Basic

/-!
# Slicing attributes

An attribute is found from a cursor on, and its value is sliced from the body of its tag by offsets
from the `=`. No slice fails, the cursor moves on with every attribute, and what is read are the
attributes of the tag.
-/

namespace MarkupRepair

open Text (size)

/-- A value that has been sliced from the body of a tag. -/
structure SlicedValue where
  /-- The value without its quotes. -/
  value : Text
  /-- The value with its quotes. -/
  raw : Text
  /-- The way of quoting. -/
  quoting : Quoting
  /-- Where the value stands in the body. -/
  span : Span
  deriving DecidableEq, Repr

namespace SlicedValue

/-- A value without quotes begins right after the `=`, so it is empty in front of white space. -/
def unquoted (rest : Text) (afterEquals start : Nat) : Sliced SlicedValue := do
  let length := if afterEquals < start then 0
    else (Text.firstOffset? isWhiteSpace rest).getD (size rest)
  let raw ← rest.cut ⟨0, length⟩
  return ⟨raw, raw, .unquoted, ⟨afterEquals, afterEquals + length⟩⟩

/-- A value behind a run of double quotes. -/
def corrupted (written : Text) (run start : Nat) : Sliced SlicedValue := do
  let after ← written.cut ⟨run, size written⟩
  let (length, closing) := match Text.firstOffset? (· == '"') after with
    | some i => (i, 1)
    | none => ((Text.firstOffset? isWhiteSpace after).getD (size after), 0)
  let value ← after.cut ⟨0, length⟩
  let raw ← written.cut ⟨0, run + length + closing⟩
  return ⟨value, raw, .corrupted run, ⟨start, start + (run + length + closing)⟩⟩

/-- A value behind a quote. -/
def quoted (written : Text) (quote : Char) (start : Nat) : Sliced SlicedValue := do
  let inner ← written.cut ⟨1, size written⟩
  match Text.firstOffset? (· == quote) inner with
  | some i =>
      let value ← inner.cut ⟨0, i⟩
      let raw ← written.cut ⟨0, i + 2⟩
      return ⟨value, raw, if quote = '"' then .double else .single, ⟨start, start + i + 2⟩⟩
  | none =>
      let raw : Text := trimEnd written
      let value ← raw.cut ⟨1, size raw⟩
      return ⟨value, raw, .unterminated, ⟨start, start + size raw⟩⟩

/-- The value behind the `=` of an attribute, which ends at an offset of the body. -/
def read (body : Text) (afterEquals : Nat) : Sliced SlicedValue := do
  let rest ← body.cut ⟨afterEquals, size body⟩
  let written := trimStart rest
  let start := afterEquals + (size rest - size written)
  match written with
  | [] => unquoted rest afterEquals start
  | q :: _ =>
      if q = '"' || q = '\'' then
        let run := (written.takeWhile (· == q)).length
        if q = '"' && 3 ≤ run then corrupted written run start else quoted written q start
      else unquoted rest afterEquals start

/-- A value as it is written behind an offset of the body. -/
def ofText (afterEquals : Nat) (v : ValueText) : SlicedValue :=
  ⟨v.value, v.raw, v.quoting,
    ⟨afterEquals + size v.gap, afterEquals + size v.gap + size v.raw⟩⟩

section Read

variable {t rest run after inner : Text} {q : Char} {n start : Nat}

theorem unquoted_eq_ok (rest : Text) (n : Nat) :
    unquoted rest n (n + size (rest.takeWhile isWhiteSpace)) =
      .ok (ofText n ⟨[], if (rest.takeWhile isWhiteSpace).isEmpty then
          (trimStart rest).takeWhile (fun c => !isWhiteSpace c) else [],
        if (rest.takeWhile isWhiteSpace).isEmpty then
          (trimStart rest).takeWhile (fun c => !isWhiteSpace c) else [], .unquoted⟩) := by
  have hrest := takeWhile_append_trimStart rest
  cases hgap : rest.takeWhile isWhiteSpace with
  | nil =>
      rw [hgap, List.nil_append] at hrest
      rw [unquoted, Text.size_nil, Nat.add_zero, if_neg (Nat.lt_irrefl n), hrest,
        Text.getD_firstOffset?, Text.cut_takeWhile, Sliced.ok_bind]
      rfl
  | cons c r =>
      have hlt : n < n + size (c :: r) := by
        have hpos := c.utf8Size_pos
        rw [Text.size_cons]
        omega
      have hcut := Text.cut_upTo [] rest
      rw [List.nil_append, Text.size_nil] at hcut
      rw [unquoted, if_pos hlt, hcut, Sliced.ok_bind]
      rfl

theorem corrupted_eq_ok (run after : Text) (start : Nat) :
    corrupted (run ++ after) (size run) start =
      .ok ⟨(ValueText.afterRun after).1, run ++ (ValueText.afterRun after).2,
        .corrupted (size run), ⟨start, start + size (run ++ (ValueText.afterRun after).2)⟩⟩ := by
  rw [corrupted, Text.cut_from, Sliced.ok_bind, Text.firstOffset?_eq, ValueText.afterRun]
  by_cases hquote : '"' ∈ after
  · obtain ⟨rest, hrest⟩ := exists_eq_takeWhile_append_cons hquote
    have hany : after.any (· == '"') = true := by
      simpa using hquote
    have hcut := Text.cut_upTo (run ++ (after.takeWhile (· != '"') ++ ['"'])) rest
    have hparts : run ++ (after.takeWhile (· != '"') ++ ['"']) ++ rest = run ++ after := by
      nth_rewrite 2 [hrest]
      simp
    have hsize : size (run ++ (after.takeWhile (· != '"') ++ ['"'])) =
        size run + size (after.takeWhile (· != '"')) + 1 := by
      simp [Nat.add_assoc]
      rfl
    rw [hparts, hsize] at hcut
    rw [if_pos hany, if_pos (List.contains_iff_mem.mpr hquote), hsize]
    dsimp only
    rw [Text.cut_takeWhile (fun c => !(c == '"')) after, Sliced.ok_bind]
    exact congrArg (· >>= _) hcut
  · have hany : ¬ after.any (· == '"') = true := by
      simpa using hquote
    have hcut := Text.cut_upTo (run ++ after.takeWhile fun c => !isWhiteSpace c)
      (after.dropWhile fun c => !isWhiteSpace c)
    rw [List.append_assoc, List.takeWhile_append_dropWhile, Text.size_append] at hcut
    rw [if_neg hany, if_neg (mt List.contains_iff_mem.mp hquote), Text.size_append]
    dsimp only
    rw [Text.getD_firstOffset?, Text.cut_takeWhile, Sliced.ok_bind, Nat.add_zero, hcut]
    rfl

/-- A value that begins with a quote is not empty when blanks are trimmed off its end. -/
theorem exists_trimEnd_eq_cons (hq : isWhiteSpace q = false) (inner : Text) :
    ∃ w, trimEnd (q :: inner) = q :: w := by
  obtain ⟨blanks, hblanks, hall⟩ := exists_trimEnd_append (q :: inner)
  cases hraw : trimEnd (q :: inner) with
  | nil =>
      rw [hraw, List.nil_append] at hblanks
      rw [hall q (hblanks ▸ List.mem_cons_self)] at hq
      cases hq
  | cons d w =>
      rw [hraw, List.cons_append] at hblanks
      exact ⟨w, by rw [(List.cons.inj hblanks).1]⟩

theorem quoted_eq_ok (hq : q.utf8Size = 1) (hblank : isWhiteSpace q = false) (inner : Text)
    (start : Nat) : quoted (q :: inner) q start = .ok (if inner.contains q then
      ⟨inner.takeWhile (· != q), q :: (inner.takeWhile (· != q) ++ [q]),
        if q = '"' then .double else .single,
        ⟨start, start + size (q :: (inner.takeWhile (· != q) ++ [q]))⟩⟩
    else ⟨(trimEnd (q :: inner)).drop 1, trimEnd (q :: inner), .unterminated,
      ⟨start, start + size (trimEnd (q :: inner))⟩⟩) := by
  have hone : size [q] = 1 := by
    rw [Text.size_cons, hq, Text.size_nil]
  have hinner := Text.cut_from [q] inner
  rw [hone, List.singleton_append] at hinner
  rw [quoted, hinner, Sliced.ok_bind, Text.firstOffset?_eq]
  by_cases hquote : q ∈ inner
  · obtain ⟨rest, hrest⟩ := exists_eq_takeWhile_append_cons hquote
    have hany : inner.any (· == q) = true := by
      simpa using hquote
    have hcut := Text.cut_upTo (q :: (inner.takeWhile (· != q) ++ [q])) rest
    have hparts : q :: (inner.takeWhile (· != q) ++ [q]) ++ rest = q :: inner := by
      nth_rewrite 2 [hrest]
      simp
    have hsize : size (q :: (inner.takeWhile (· != q) ++ [q])) =
        size (inner.takeWhile (· != q)) + 2 := by
      rw [Text.size_cons, Text.size_append, hone, hq]
      omega
    rw [hparts, hsize] at hcut
    rw [if_pos hany, if_pos (List.contains_iff_mem.mpr hquote), hsize]
    dsimp only
    rw [Text.cut_takeWhile (fun c => !(c == q)) inner, Sliced.ok_bind]
    exact congrArg (· >>= _) hcut
  · have hany : ¬ inner.any (· == q) = true := by
      simpa using hquote
    obtain ⟨w, hw⟩ := exists_trimEnd_eq_cons hblank inner
    have hcut := Text.cut_from [q] w
    rw [hone, List.singleton_append] at hcut
    rw [if_neg hany, if_neg (mt List.contains_iff_mem.mp hquote), hw]
    dsimp only
    rw [hcut]
    rfl

/-- The value behind the `=` of an attribute is the one that is read from what follows. -/
theorem read_eq_ok (front rest : Text) :
    read (front ++ rest) (size front) = .ok (ofText (size front) (ValueText.read rest)) := by
  have hunquoted := unquoted_eq_ok rest (size front)
  rw [read, Text.cut_from, Sliced.ok_bind]
  dsimp only
  rw [Text.size_sub_size_trimStart, ValueText.read]
  dsimp only
  cases hwritten : trimStart rest with
  | nil =>
      dsimp only
      rw [hunquoted, hwritten]
      simp
  | cons q inner =>
      by_cases hquote : (decide (q = '"') || decide (q = '\'')) = true
      · have hcases : q = '"' ∨ q = '\'' := by
          simpa using hquote
        have hone : q.utf8Size = 1 := by
          rcases hcases with rfl | rfl <;> rfl
        have hblank : isWhiteSpace q = false := by
          rcases hcases with rfl | rfl <;> decide
        have hrun : size ((q :: inner).takeWhile (· == q)) =
            ((q :: inner).takeWhile (· == q)).length :=
          Text.size_of_forall_eq hone fun c hc =>
            beq_iff_eq.mp (List.mem_takeWhile_imp (p := fun c => c == q) hc)
        dsimp only
        rw [if_pos hquote, if_pos hquote]
        split
        next hlong =>
          have hsplit :=
            List.prefix_iff_eq_append.mp (List.takeWhile_prefix (l := q :: inner) (· == q))
          have hcorrupted := corrupted_eq_ok ((q :: inner).takeWhile (· == q))
            ((q :: inner).drop ((q :: inner).takeWhile (· == q)).length)
            (size front + size (rest.takeWhile isWhiteSpace))
          rw [hsplit, hrun] at hcorrupted
          rw [hcorrupted]
          rfl
        next =>
          rw [quoted_eq_ok hone hblank]
          split <;> rfl
      · dsimp only
        rw [if_neg hquote, if_neg hquote, hunquoted, hwritten]

end Read

end SlicedValue

namespace AttributeText

/-- The first attribute of a tag body, with the white space in front of it, and the attributes
behind it. -/
theorem all_eq_cons {offset o : Nat} {body : Text} {a : AttributeText}
    (h : (all offset 0 body).head? = some (o, a)) : ∃ p q, body = p ++ (a.toText ++ q) ∧
      o = offset + size p ∧ p ≠ [] ∧
      a.written = ValueText.read (a.written.gap ++ (a.written.raw ++ q)) ∧
      all offset 0 body = (o, a) :: all (o + size a.toText) 0 q := by
  induction body generalizing offset with
  | nil => cases h
  | cons c r ih =>
      rw [all.eq_def] at h ⊢
      dsimp only at h ⊢
      cases hfirst : (if isWhiteSpace c = true then read? r else none) with
      | none =>
          rw [hfirst] at h
          obtain ⟨p, q, rfl, rfl, -, hwritten, hall⟩ := ih h
          refine ⟨c :: p, q, rfl, ?_, List.cons_ne_nil c p, hwritten, hall⟩
          rw [Text.size_cons, Nat.add_assoc]
      | some first =>
          rw [hfirst] at h
          obtain ⟨rfl, rfl⟩ := Prod.mk.inj (Option.some.inj h)
          rw [Option.ite_none_right_eq_some] at hfirst
          obtain ⟨q, rfl, hwritten, -⟩ := exists_toText_append hfirst.2
          refine ⟨[c], q, rfl, rfl, List.cons_ne_nil c [], hwritten, ?_⟩
          dsimp only
          rw [WrittenAttribute.all_skip]

/-- The attributes of a body that begins further on stand further on. -/
theorem all_add (base offset skip : Nat) (body : Text) : all (base + offset) skip body =
    (all offset skip body).map fun (o, a) => (base + o, a) := by
  induction body generalizing offset skip with
  | nil => cases skip <;> rfl
  | cons c r ih =>
      rw [all.eq_def, all.eq_def offset]
      dsimp only
      split
      next => rw [Nat.add_assoc, ih]
      next =>
        split
        next => rw [Nat.add_assoc, ih, List.map_cons]
        next => rw [Nat.add_assoc, ih]

end AttributeText

namespace AttributeToken

theorem size_add_of_cut {t r : Text} {n : Nat} (h : t.cut ⟨n, size t⟩ = .ok r) :
    n + size r = size t := by
  unfold Text.cut at h
  split at h
  next part hslice =>
    obtain rfl := Except.ok.inj h
    obtain ⟨a, b, ht, hspan⟩ := Text.slice?_eq_some_iff.mp hslice
    obtain ⟨rfl, hsize⟩ := Span.mk.inj hspan
    exact hsize.symm
  next => cases h

/-- The attributes of a tag body from a cursor on, the body beginning at an offset of the text. -/
def sliced (index : LineIndex) (base : Nat) (body : Text) (cursor : Nat) :
    Sliced (List AttributeToken) :=
  match _hrest : body.cut ⟨cursor, size body⟩ with
  | .error fault => .error fault
  | .ok rest =>
      match _hfirst : (AttributeText.all cursor 0 rest).head? with
      | none => .ok []
      | some (start, a) => do
          let afterEquals := start + size (a.name ++ a.space ++ ['='])
          let value ← SlicedValue.read body afterEquals
          let later ← sliced index base body (max value.span.stop afterEquals)
          return {
            name := a.name
            value := value.value
            raw := value.raw
            quoting := value.quoting
            span := ⟨base + value.span.start, base + value.span.stop⟩
            position := index.position (base + start) } :: later
termination_by size body - cursor
decreasing_by
  obtain ⟨p, q, rfl, rfl, hp, -⟩ := AttributeText.all_eq_cons _hfirst
  have hsize := size_add_of_cut _hrest
  have hpos : 0 < size p := Nat.pos_of_ne_zero fun hzero => hp (Text.eq_nil_of_size_eq_zero hzero)
  simp only [Text.size_append] at hsize ⊢
  omega

/-- The value of an attribute is sliced behind its `=`, and ends where the attribute ends. -/
theorem read_eq_ok {a : AttributeText} {q : Text}
    (h : a.written = ValueText.read (a.written.gap ++ (a.written.raw ++ q))) (front : Text) :
    SlicedValue.read (front ++ (a.toText ++ q)) (size front + size (a.name ++ a.space ++ ['='])) =
      .ok ⟨a.written.value, a.written.raw, a.written.quoting,
        ⟨size front + size a.beforeValue, size front + size a.toText⟩⟩ := by
  have hread := SlicedValue.read_eq_ok (front ++ (a.name ++ a.space ++ ['=']))
    (a.written.gap ++ (a.written.raw ++ q))
  have htext : front ++ (a.name ++ a.space ++ ['=']) ++ (a.written.gap ++ (a.written.raw ++ q)) =
      front ++ (a.toText ++ q) := by
    simp [AttributeText.toText, AttributeText.beforeValue]
  rw [htext, Text.size_append, ← h] at hread
  rw [hread]
  simp [SlicedValue.ofText, AttributeText.toText, AttributeText.beforeValue, Nat.add_assoc]

/-- The attributes that are sliced from a tag body are those that are read from it. -/
theorem sliced_eq_ok (index : LineIndex) (base : Nat) (front rest : Text) :
    sliced index base (front ++ rest) (size front) =
      .ok ((AttributeText.all (base + size front) 0 rest).map (ofText index)) := by
  induction hn : rest.length using Nat.strongRecOn generalizing front rest with
  | ind n ih =>
      rw [sliced]
      split
      next fault hcut =>
        rw [Text.cut_from] at hcut
        cases hcut
      next later hcut =>
        rw [Text.cut_from] at hcut
        obtain rfl := Except.ok.inj hcut
        split
        next hnone =>
          rw [AttributeText.all_add, List.head?_eq_none_iff.mp hnone]
          rfl
        next start a hfirst =>
          obtain ⟨p, q, rfl, rfl, -, hwritten, hall⟩ := AttributeText.all_eq_cons hfirst
          have hshort : q.length < n := by
            simp [← hn, AttributeText.toText, AttributeText.beforeValue]
            omega
          have hread := read_eq_ok hwritten (front ++ p)
          have hlater := ih q.length hshort (front ++ p ++ a.toText) q rfl
          have hstop : max (size front + size p + size a.toText)
              (size front + size p + size (a.name ++ a.space ++ ['='])) =
                size front + size p + size a.toText := by
            simp [AttributeText.toText, AttributeText.beforeValue]
          rw [List.append_assoc, Text.size_append] at hread
          rw [List.append_assoc, List.append_assoc, Text.size_append, Text.size_append,
            AttributeText.all_add base] at hlater
          dsimp only
          rw [hread, Sliced.ok_bind]
          dsimp only
          rw [hstop, hlater, Sliced.ok_bind, AttributeText.all_add base (size front), hall,
            List.map_cons, List.map_cons]
          simp only [ofText, AttributeText.toText, Text.size_append, Nat.add_assoc]
          rfl

end AttributeToken

end MarkupRepair
