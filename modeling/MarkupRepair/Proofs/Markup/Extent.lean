import Mathlib.Data.List.Basic
import MarkupRepair.Markup.Tag

/-!
# The extent of a tag

A tag that is read at the start of a text is what the text begins with, character by character.
The reading of a tag stops in front of a `>`, since it only passes into a quoted stretch that
has a `>` behind it.
-/

namespace MarkupRepair

namespace TagText

/-- Whether the end of a tag is still to come, read outside quotes or inside a quoted stretch. -/
def HasEnd : Option Char → Text → Prop
  | none, t => '>' ∈ t
  | some q, t => '>' ∈ (t.dropWhile (· != q)).drop 1

/-- Reading stops in front of the end of the tag. -/
theorem exists_untilEnd_append {quote : Option Char} {t : Text} (h : HasEnd quote t) :
    ∃ rest, t = untilEnd quote t ++ '>' :: rest := by
  induction t generalizing quote with
  | nil => cases quote <;> cases h
  | cons c r ih =>
      cases quote with
      | none =>
          by_cases hc : c = '>'
          · exact ⟨r, by rw [untilEnd, if_pos hc, hc, List.nil_append]⟩
          · by_cases hopens : opensQuoted c r = true
            · have hquoted : HasEnd (some c) r := by
                rw [opensQuoted, Bool.and_eq_true, List.contains_iff_mem] at hopens
                exact hopens.2
              obtain ⟨rest, hrest⟩ := ih hquoted
              refine ⟨rest, ?_⟩
              rw [untilEnd, if_neg hc, if_pos hopens, List.cons_append, ← hrest]
            · have hplain : HasEnd none r := (List.mem_cons.mp h).resolve_left (Ne.symm hc)
              obtain ⟨rest, hrest⟩ := ih hplain
              refine ⟨rest, ?_⟩
              rw [untilEnd, if_neg hc, if_neg hopens, List.cons_append, ← hrest]
      | some q =>
          have hnext : HasEnd (if c = q then none else some q) r := by
            by_cases hc : c = q
            · simpa [HasEnd, hc] using h
            · simpa [HasEnd, hc] using h
          obtain ⟨rest, hrest⟩ := ih hnext
          refine ⟨rest, ?_⟩
          rw [untilEnd, List.cons_append, ← hrest]

/-- What follows a `<` begins with the rest of the tag that is read from it. -/
theorem exists_eq_of_read? {r : Text} {tag : TagText} (h : read? r = some tag) :
    ∃ rest, '<' :: r = tag.toText ++ rest := by
  rw [read?, Option.ite_none_right_eq_some] at h
  obtain ⟨hread, htag⟩ := h
  have hslash : (if Text.startsWith r ['/'] then ['/'] else []) ++
      (if Text.startsWith r ['/'] then r.drop 1 else r) = r := by
    split
    next hstarts =>
      obtain ⟨rest, hrest⟩ := Option.isSome_iff_exists.mp hstarts
      rw [Text.afterPrefix?_eq_some_iff.mp hrest]
      rfl
    next => rfl
  generalize (if Text.startsWith r ['/'] then r.drop 1 else r) = named at hread htag hslash
  rw [Bool.and_eq_true, List.contains_iff_mem] at hread
  have hend : HasEnd none ((named.dropWhile isNameChar).takeWhile (· != '<')) := hread.2
  obtain ⟨rest, hregion⟩ := exists_untilEnd_append hend
  generalize untilEnd none ((named.dropWhile isNameChar).takeWhile (· != '<')) = inner
    at htag hregion
  have hinner : (if (inner.getLast? == some '/') = true then inner.dropLast else inner) ++
      (if (inner.getLast? == some '/') = true then ['/'] else []) = inner := by
    split
    next hlast => exact List.dropLast_append_getLast? '/' (beq_iff_eq.mp hlast)
    next => exact List.append_nil _
  refine ⟨rest ++ (named.dropWhile isNameChar).dropWhile (· != '<'), ?_⟩
  have hnamed : named = named.takeWhile isNameChar ++ (inner ++ '>' :: rest ++
      (named.dropWhile isNameChar).dropWhile (· != '<')) := by
    rw [← hregion, List.takeWhile_append_dropWhile, List.takeWhile_append_dropWhile]
  obtain rfl := Option.some.inj htag
  generalize Text.startsWith r ['/'] = leadingSlash at hslash
  generalize (inner.getLast? == some '/') = trailingSlash at hinner
  calc
    '<' :: r = '<' :: ((if leadingSlash then ['/'] else []) ++ (named.takeWhile isNameChar ++
        (((if trailingSlash then inner.dropLast else inner) ++
          (if trailingSlash then ['/'] else [])) ++ '>' :: rest ++
            (named.dropWhile isNameChar).dropWhile (· != '<')))) := by
      rw [hinner, ← hnamed, hslash]
    _ = _ := by
      simp [toText]

/-- A tag at the start of a text is read from what follows a `<`. -/
theorem exists_read?_of_atStart? {t : Text} {tag : TagText} (h : atStart? t = some tag) :
    ∃ r, t = '<' :: r ∧ read? r = some tag := by
  unfold atStart? at h
  split at h
  next r => exact ⟨r, rfl, h⟩
  next => cases h

/-- A text begins with the tag that it is read to begin with. -/
theorem exists_toText_append {t : Text} {tag : TagText} (h : atStart? t = some tag) :
    ∃ rest, t = tag.toText ++ rest := by
  obtain ⟨r, rfl, hread⟩ := exists_read?_of_atStart? h
  exact exists_eq_of_read? hread

/-- A tag that does not close has no slash in front of its name. -/
theorem leadingSlash_eq_false {tag : TagText} (h : tag.kind ≠ .closing) :
    tag.leadingSlash = false := by
  cases hslash : tag.leadingSlash with
  | false => rfl
  | true => exact absurd (if_pos hslash) h

/-- A self-closing tag has a slash at its end only. -/
theorem slashes_of_selfClosing {tag : TagText} (h : tag.kind = .selfClosing) :
    tag.leadingSlash = false ∧ tag.trailingSlash = true := by
  unfold kind at h
  cases hleading : tag.leadingSlash <;> cases htrailing : tag.trailingSlash <;>
    simp_all

end TagText

end MarkupRepair
