import MarkupRepair.Proofs.Issue.Nesting

/-!
# Every tag is accounted for once

While the balance reads the tags, each tag it follows is in one of three lists: it is paired with
its counterpart, it is an opening tag that awaits its closing tag, or it has been reported. A
closing tag that closes an open element makes a pair, and the elements it interrupts go from those
that wait to those that are reported. What still waits after the last tag is reported then.

Tags are known by their places in the list of tags, a pair by the place of its opening tag and that
of its closing tag. No two pairs cross because an opening tag that waits stands outside of every
pair.
-/

namespace MarkupRepair

namespace Balance

/-- Whether a pair stands around a place. -/
def encloses (k : Nat) (p : Nat × Nat) : Bool := p.1 < k && k < p.2

/-- Opening tags with later closing tags of the same names. -/
structure Pairing (tags : List TagToken) (pairs : List (Nat × Nat)) : Prop where
  /-- An opening tag is paired with a later closing tag of its name. -/
  matched : ∀ p ∈ pairs, p.1 < p.2 ∧ ∃ opener closer,
    tags[p.1]? = some opener ∧ opener.isTracked = true ∧ opener.kind = .opening ∧
    tags[p.2]? = some closer ∧ closer.isTracked = true ∧ closer.kind = .closing ∧
    closer.name = opener.name
  /-- In the order of the closing tags, a pair stands before a later one or inside of it. -/
  apart : pairs.Pairwise fun p q => p.2 < q.2 ∧ (p.2 < q.1 ∨ q.1 < p.1)

/-- Why a tag at a place has no counterpart: it closes nothing, the innermost pair around it ended
before it did, or the document ended. -/
def lonelyCause (tags : List TagToken) (pairs : List (Nat × Nat)) (k : Nat) (tag : TagToken) :
    UnclosedCause :=
  if tag.kind = .closing then .unexpectedClose
  else match (pairs.find? (encloses k)).bind fun p => tags[p.2]? with
    | some closer => .interrupted closer.name
    | none => .endOfDocument

/-- The fault of the tag at a place, when it is one that the balance follows and it is not
paired. -/
def lonely? (tags : List TagToken) (pairs : List (Nat × Nat)) (k : Nat) : Option BalanceFault :=
  match tags[k]? with
  | some tag =>
      if tag.isTracked && pairs.all fun p => p.1 != k && p.2 != k then
        some ⟨.unclosedTag tag.name (lonelyCause tags pairs k tag), tag.position⟩
      else none
  | none => none

variable {tags : List TagToken} {pairs : List (Nat × Nat)} {k n f : Nat} {tag : TagToken}

/-- A tag that the balance follows has a fault exactly when it is not paired. -/
theorem lonely?_eq (htag : tags[k]? = some tag) (htracked : tag.isTracked = true) :
    lonely? tags pairs k = if ∀ p ∈ pairs, p.1 ≠ k ∧ p.2 ≠ k then
      some ⟨.unclosedTag tag.name (lonelyCause tags pairs k tag), tag.position⟩ else none := by
  have hall :
      (pairs.all fun p => p.1 != k && p.2 != k) = true ↔ ∀ p ∈ pairs, p.1 ≠ k ∧ p.2 ≠ k := by
    simp
  simp only [lonely?, htag, htracked, Bool.true_and, hall]

/-- Only a tag that the balance follows has a fault. -/
theorem isSome_lonely?_iff : (lonely? tags pairs k).isSome = true ↔
    (∃ tag, tags[k]? = some tag ∧ tag.isTracked = true) ∧ ∀ p ∈ pairs, p.1 ≠ k ∧ p.2 ≠ k := by
  cases htag : tags[k]? with
  | none => simp [lonely?, htag]
  | some tag =>
      cases htracked : tag.isTracked with
      | false => simp [lonely?, htag, htracked]
      | true =>
          rw [lonely?_eq htag htracked, Option.isSome_ite]
          exact ⟨fun h => ⟨⟨tag, rfl, htracked⟩, h⟩, And.right⟩

/-- A pair can come last that is read last and that every other pair stands before or inside of. -/
theorem Pairing.concat {opener closer : TagToken} (h : Pairing tags pairs) (hlt : f < n)
    (hopener : tags[f]? = some opener) (hopens : opener.isTracked = true)
    (hopening : opener.kind = .opening) (hcloser : tags[n]? = some closer)
    (hcloses : closer.isTracked = true) (hclosing : closer.kind = .closing)
    (hname : closer.name = opener.name) (hread : ∀ p ∈ pairs, p.2 < n)
    (houtside : ∀ p ∈ pairs, p.2 < f ∨ f < p.1) : Pairing tags (pairs ++ [(f, n)]) where
  matched p hp := by
    rcases List.mem_append.mp hp with hp | hp
    · exact h.matched p hp
    · rw [List.mem_singleton.mp hp]
      exact ⟨hlt, opener, closer, hopener, hopens, hopening, hcloser, hcloses, hclosing, hname⟩
  apart := by
    refine List.pairwise_append.mpr ⟨h.apart, List.pairwise_singleton _ _, ?_⟩
    intro p hp q hq
    rw [List.mem_singleton.mp hq]
    exact ⟨hread p hp, houtside p hp⟩

/-- A pair that comes last changes nothing for a closing tag, and nothing for a tag that another
pair stands around. -/
theorem lonelyCause_append (p : Nat × Nat)
    (h : tag.kind = .closing ∨ ∃ q ∈ pairs, encloses k q = true) :
    lonelyCause tags (pairs ++ [p]) k tag = lonelyCause tags pairs k tag := by
  unfold lonelyCause
  rcases h with h | ⟨q, hq, hencloses⟩
  · rw [if_pos h, if_pos h]
  · have hfound : (pairs.find? (encloses k)).isSome = true :=
      List.find?_isSome.mpr ⟨q, hq, hencloses⟩
    rw [List.find?_append, Option.or_of_isSome hfound]

/-- The fault of an element that is open when the document ends. -/
def leftOpen (frame : TagToken) : BalanceFault :=
  ⟨.unclosedTag frame.name .endOfDocument, frame.position⟩

/-- How far the balance has come after `n` tags: which of them are paired, which opening tags wait,
innermost first, and which tags are reported. -/
structure Account (tags : List TagToken) (n : Nat) (pairs : List (Nat × Nat))
    (awaiting reported : List Nat) : Prop where
  /-- The pairs are pairs. -/
  pairing : Pairing tags pairs
  /-- Only tags that have been read are paired. -/
  read : ∀ p ∈ pairs, p.2 < n
  /-- What waits is an opening tag that has been read. -/
  opening : ∀ k ∈ awaiting, k < n ∧ ∃ tag, tags[k]? = some tag ∧ tag.isTracked = true ∧
    tag.kind = .opening
  /-- The innermost element was opened last. -/
  descending : awaiting.Pairwise (· > ·)
  /-- What waits stands outside of every pair. -/
  outside : ∀ k ∈ awaiting, ∀ p ∈ pairs, p.2 < k ∨ k < p.1
  /-- No tag is reported twice. -/
  nodup : reported.Nodup
  /-- What is reported is what is not paired and does not wait. -/
  mem_reported : ∀ k, k ∈ reported ↔ k < n ∧ (lonely? tags pairs k).isSome = true ∧ k ∉ awaiting
  /-- An opening tag is reported once a pair stands around it. -/
  settled : ∀ k ∈ reported, (∃ tag, tags[k]? = some tag ∧ tag.kind = .closing) ∨
    ∃ p ∈ pairs, encloses k p = true

namespace Account

variable {awaiting inner outer reported : List Nat}

/-- Nothing is paired, waits or is reported before the first tag. -/
theorem start : Account tags 0 [] [] [] where
  pairing := ⟨fun _ h => (List.not_mem_nil h).elim, .nil⟩
  read _ h := (List.not_mem_nil h).elim
  opening _ h := (List.not_mem_nil h).elim
  descending := .nil
  outside _ h := (List.not_mem_nil h).elim
  nodup := .nil
  mem_reported k := by simp
  settled _ h := (List.not_mem_nil h).elim

/-- What waits is not paired. -/
theorem ne_of_mem (h : Account tags n pairs awaiting reported) (hk : k ∈ awaiting) :
    ∀ p ∈ pairs, p.1 ≠ k ∧ p.2 ≠ k := by
  intro p hp
  have hlt := (h.pairing.matched p hp).1
  have hout := h.outside k hk p hp
  omega

/-- A tag that is not read yet is not paired. -/
theorem ne_of_le (h : Account tags n pairs awaiting reported) (hk : n ≤ k) :
    ∀ p ∈ pairs, p.1 ≠ k ∧ p.2 ≠ k := by
  intro p hp
  have hlt := (h.pairing.matched p hp).1
  have hread := h.read p hp
  omega

/-- What waits has no pair around it. -/
theorem find?_of_mem (h : Account tags n pairs awaiting reported) (hk : k ∈ awaiting) :
    pairs.find? (encloses k) = none := by
  rw [List.find?_eq_none]
  intro p hp hencloses
  have hout := h.outside k hk p hp
  simp only [encloses, Bool.and_eq_true, decide_eq_true_eq] at hencloses
  omega

/-- A tag that the balance does not follow changes nothing. -/
theorem skip (h : Account tags n pairs awaiting reported) (htag : tags[n]? = some tag)
    (htracked : tag.isTracked = false) : Account tags (n + 1) pairs awaiting reported where
  pairing := h.pairing
  read p hp := Nat.lt_succ_of_lt (h.read p hp)
  opening k hk := ⟨Nat.lt_succ_of_lt (h.opening k hk).1, (h.opening k hk).2⟩
  descending := h.descending
  outside := h.outside
  nodup := h.nodup
  mem_reported k := by
    rw [h.mem_reported]
    refine ⟨fun ⟨hk, hrest⟩ => ⟨Nat.lt_succ_of_lt hk, hrest⟩, fun ⟨hk, hsome, hrest⟩ => ?_⟩
    refine ⟨Nat.lt_of_le_of_ne (Nat.le_of_lt_succ hk) ?_, hsome, hrest⟩
    rintro rfl
    obtain ⟨⟨tag', htag', htracked'⟩, -⟩ := isSome_lonely?_iff.mp hsome
    rw [htag] at htag'
    obtain rfl := Option.some.inj htag'
    rw [htracked] at htracked'
    cases htracked'
  settled := h.settled

/-- An opening tag waits. -/
theorem opens (h : Account tags n pairs awaiting reported) (htag : tags[n]? = some tag)
    (htracked : tag.isTracked = true) (hkind : tag.kind = .opening) :
    Account tags (n + 1) pairs (n :: awaiting) reported where
  pairing := h.pairing
  read p hp := Nat.lt_succ_of_lt (h.read p hp)
  opening k hk := by
    rcases List.mem_cons.mp hk with rfl | hk
    · exact ⟨Nat.lt_succ_self _, tag, htag, htracked, hkind⟩
    · exact ⟨Nat.lt_succ_of_lt (h.opening k hk).1, (h.opening k hk).2⟩
  descending := List.pairwise_cons.mpr ⟨fun k hk => (h.opening k hk).1, h.descending⟩
  outside k hk p hp := by
    rcases List.mem_cons.mp hk with rfl | hk
    · exact .inl (h.read p hp)
    · exact h.outside k hk p hp
  nodup := h.nodup
  mem_reported k := by
    rw [h.mem_reported, List.mem_cons, not_or]
    refine ⟨fun ⟨hk, hsome, hwait⟩ => ?_, fun ⟨hk, hsome, hne, hwait⟩ => ?_⟩
    · exact ⟨Nat.lt_succ_of_lt hk, hsome, Nat.ne_of_lt hk, hwait⟩
    · exact ⟨Nat.lt_of_le_of_ne (Nat.le_of_lt_succ hk) hne, hsome, hwait⟩
  settled := h.settled

/-- A closing tag that closes nothing is reported. -/
theorem rejects (h : Account tags n pairs awaiting reported) (htag : tags[n]? = some tag)
    (htracked : tag.isTracked = true) (hkind : tag.kind = .closing) :
    Account tags (n + 1) pairs awaiting (reported ++ [n]) where
  pairing := h.pairing
  read p hp := Nat.lt_succ_of_lt (h.read p hp)
  opening k hk := ⟨Nat.lt_succ_of_lt (h.opening k hk).1, (h.opening k hk).2⟩
  descending := h.descending
  outside := h.outside
  nodup := by
    refine List.nodup_append.mpr ⟨h.nodup, List.pairwise_singleton _ n, ?_⟩
    rintro k hk _ hn rfl
    rw [List.mem_singleton.mp hn] at hk
    exact absurd ((h.mem_reported n).mp hk).1 (Nat.lt_irrefl n)
  mem_reported k := by
    rw [List.mem_append, List.mem_singleton, h.mem_reported]
    constructor
    · rintro (⟨hk, hrest⟩ | rfl)
      · exact ⟨Nat.lt_succ_of_lt hk, hrest⟩
      · refine ⟨Nat.lt_succ_self _, ?_, fun hwait => ?_⟩
        · exact isSome_lonely?_iff.mpr ⟨⟨tag, htag, htracked⟩, h.ne_of_le (Nat.le_refl _)⟩
        · exact absurd (h.opening _ hwait).1 (Nat.lt_irrefl _)
    · rintro ⟨hk, hrest⟩
      rcases Nat.lt_succ_iff_lt_or_eq.mp hk with hk | hk
      · exact .inl ⟨hk, hrest⟩
      · exact .inr hk
  settled k hk := by
    rcases List.mem_append.mp hk with hk | hk
    · exact h.settled k hk
    · rw [List.mem_singleton.mp hk]
      exact .inl ⟨tag, htag, hkind⟩

/-- What is reported after a closing tag closes an element, those that waited inside of it included,
is what is not paired then and does not wait. -/
theorem mem_reported_closes (h : Account tags n pairs (inner ++ f :: outer) reported) :
    k ∈ reported ++ inner.reverse ↔
      k < n + 1 ∧ (lonely? tags (pairs ++ [(f, n)]) k).isSome = true ∧ k ∉ outer := by
  have hpairs : (∀ p ∈ pairs ++ [(f, n)], p.1 ≠ k ∧ p.2 ≠ k) ↔
      (∀ p ∈ pairs, p.1 ≠ k ∧ p.2 ≠ k) ∧ f ≠ k ∧ n ≠ k := by
    simp only [List.forall_mem_append, List.forall_mem_singleton]
  have hsplit : k ∈ inner ++ f :: outer ↔ k ∈ inner ∨ k = f ∨ k ∈ outer := by
    rw [List.mem_append, List.mem_cons]
  rw [List.mem_append, List.mem_reverse, h.mem_reported, isSome_lonely?_iff, isSome_lonely?_iff,
    hpairs, hsplit]
  constructor
  · rintro (⟨hk, ⟨htracked, hfree⟩, hwait⟩ | hk)
    · have hkf : f ≠ k := fun heq => hwait (.inr (.inl heq.symm))
      exact ⟨Nat.lt_succ_of_lt hk, ⟨htracked, hfree, hkf, Nat.ne_of_gt hk⟩, fun hk' =>
        hwait (.inr (.inr hk'))⟩
    · obtain ⟨-, -, hinside⟩ := List.pairwise_append.mp h.descending
      have hwait : k ∈ inner ++ f :: outer := hsplit.mpr (.inl hk)
      obtain ⟨hkn, tag, htag, htracked, -⟩ := h.opening k hwait
      have hkf : f < k := hinside k hk f List.mem_cons_self
      refine ⟨Nat.lt_succ_of_lt hkn, ⟨⟨tag, htag, htracked⟩, h.ne_of_mem hwait, Nat.ne_of_lt hkf,
        Nat.ne_of_gt hkn⟩, fun hk' => ?_⟩
      exact Nat.lt_irrefl k (hinside k hk k (List.mem_cons_of_mem _ hk'))
  · rintro ⟨hk, ⟨htracked, hfree, hkf, hkn⟩, hwait⟩
    by_cases hin : k ∈ inner
    · exact .inr hin
    · have hlt : k < n := Nat.lt_of_le_of_ne (Nat.le_of_lt_succ hk) hkn.symm
      refine .inl ⟨hlt, ⟨htracked, hfree⟩, ?_⟩
      rintro (hk' | rfl | hk')
      · exact hin hk'
      · exact hkf rfl
      · exact hwait hk'

/-- A closing tag is paired with the opening tag that waits for it, and those that wait inside are
reported. -/
theorem closes {opener : TagToken} (h : Account tags n pairs (inner ++ f :: outer) reported)
    (htag : tags[n]? = some tag) (htracked : tag.isTracked = true) (hkind : tag.kind = .closing)
    (hopener : tags[f]? = some opener) (hname : tag.name = opener.name) :
    Account tags (n + 1) (pairs ++ [(f, n)]) outer (reported ++ inner.reverse) := by
  have hf : f ∈ inner ++ f :: outer := List.mem_append_right _ List.mem_cons_self
  have hinner : ∀ {k}, k ∈ inner → k ∈ inner ++ f :: outer := fun hk => List.mem_append_left _ hk
  have houter : ∀ {k}, k ∈ outer → k ∈ inner ++ f :: outer := fun hk =>
    List.mem_append_right _ (List.mem_cons_of_mem _ hk)
  obtain ⟨hdescends, hrest, hinside⟩ := List.pairwise_append.mp h.descending
  obtain ⟨hfirst, hrest⟩ := List.pairwise_cons.mp hrest
  obtain ⟨hfn, opener', hopener', hopens, hopening⟩ := h.opening f hf
  obtain rfl : opener = opener' := Option.some.inj (hopener.symm.trans hopener')
  exact {
    pairing := h.pairing.concat hfn hopener hopens hopening htag htracked hkind hname h.read
      (h.outside f hf)
    read := List.forall_mem_append.mpr ⟨fun p hp => Nat.lt_succ_of_lt (h.read p hp),
      List.forall_mem_singleton.mpr (Nat.lt_succ_self n)⟩
    opening := fun k hk =>
      ⟨Nat.lt_succ_of_lt (h.opening k (houter hk)).1, (h.opening k (houter hk)).2⟩
    descending := hrest
    outside := fun k hk => List.forall_mem_append.mpr
      ⟨h.outside k (houter hk), List.forall_mem_singleton.mpr (.inr (hfirst k hk))⟩
    nodup := by
      refine List.nodup_append.mpr ⟨h.nodup, ?_, ?_⟩
      · exact List.pairwise_reverse.mpr (hdescends.imp fun h => Nat.ne_of_lt h)
      · rintro k hk _ hk' rfl
        exact ((h.mem_reported k).mp hk).2.2 (hinner (List.mem_reverse.mp hk'))
    mem_reported := fun k => h.mem_reported_closes
    settled := by
      intro k hk
      rcases List.mem_append.mp hk with hk | hk
      · refine (h.settled k hk).imp_right fun ⟨p, hp, hencloses⟩ => ?_
        exact ⟨p, List.mem_append_left _ hp, hencloses⟩
      · have hk := List.mem_reverse.mp hk
        refine .inr ⟨(f, n), List.mem_append_right _ (List.mem_singleton.mpr rfl), ?_⟩
        simp only [encloses, Bool.and_eq_true, decide_eq_true_eq]
        exact ⟨hinside k hk f List.mem_cons_self, (h.opening k (hinner hk)).1⟩ }

/-- A tag that is reported keeps its fault when a pair of other tags comes last. -/
theorem lonely?_append (h : Account tags n pairs awaiting reported) (hf : f ∈ awaiting)
    (hk : k ∈ reported) : lonely? tags (pairs ++ [(f, n)]) k = lonely? tags pairs k := by
  obtain ⟨hkn, hsome, hwait⟩ := (h.mem_reported k).mp hk
  obtain ⟨⟨tag, htag, htracked⟩, hpairs⟩ := isSome_lonely?_iff.mp hsome
  have hpairs' : ∀ p ∈ pairs ++ [(f, n)], p.1 ≠ k ∧ p.2 ≠ k :=
    List.forall_mem_append.mpr ⟨hpairs, List.forall_mem_singleton.mpr
      ⟨fun heq => hwait (heq ▸ hf), Nat.ne_of_gt hkn⟩⟩
  have hcause : tag.kind = .closing ∨ ∃ p ∈ pairs, encloses k p = true := by
    refine (h.settled k hk).imp_left fun ⟨tag', htag', hkind⟩ => ?_
    rwa [Option.some.inj (htag.symm.trans htag')]
  rw [lonely?_eq htag htracked, lonely?_eq htag htracked, if_pos hpairs, if_pos hpairs',
    lonelyCause_append (f, n) hcause]

/-- What waits is interrupted by the closing tag that closes an element around it. -/
theorem lonely?_interrupted {frame : TagToken} (h : Account tags n pairs awaiting reported)
    (hk : k ∈ awaiting) (hfk : f < k) (hframe : tags[k]? = some frame)
    (htag : tags[n]? = some tag) :
    lonely? tags (pairs ++ [(f, n)]) k = some (interrupted tag frame) := by
  obtain ⟨hkn, frame', hframe', htracked, hkind⟩ := h.opening k hk
  obtain rfl : frame = frame' := Option.some.inj (hframe.symm.trans hframe')
  have hpairs : ∀ p ∈ pairs ++ [(f, n)], p.1 ≠ k ∧ p.2 ≠ k :=
    List.forall_mem_append.mpr ⟨h.ne_of_mem hk, List.forall_mem_singleton.mpr
      ⟨Nat.ne_of_lt hfk, Nat.ne_of_gt hkn⟩⟩
  have hfound : (pairs ++ [(f, n)]).find? (encloses k) = some (f, n) := by
    rw [List.find?_append, h.find?_of_mem hk]
    simp [encloses, hfk, hkn]
  rw [lonely?_eq hframe htracked, if_pos hpairs, lonelyCause, hfound, Option.bind_some, htag, hkind]
  rfl

/-- When a closing tag closes an element, what was reported keeps its faults and what waits inside
of the element is interrupted. -/
theorem map_lonely?_closes {inside outside : List Nat} {frames : List TagToken}
    (h : Account tags n pairs (inside ++ f :: outside) reported) (htag : tags[n]? = some tag)
    (hinside : inside.map (fun k => tags[k]?) = frames.map some) :
    (reported ++ inside.reverse).map (lonely? tags (pairs ++ [(f, n)])) =
      reported.map (lonely? tags pairs) ++ frames.reverse.map fun frame =>
        some (interrupted tag frame) := by
  have hkept :
      reported.map (lonely? tags (pairs ++ [(f, n)])) = reported.map (lonely? tags pairs) :=
    List.map_congr_left fun k hk =>
      h.lonely?_append (List.mem_append_right _ List.mem_cons_self) hk
  have hinterrupted : inside.map (lonely? tags (pairs ++ [(f, n)])) =
      inside.map fun k => (tags[k]?).map (interrupted tag) := by
    refine List.map_congr_left fun k hk => ?_
    have hwait : k ∈ inside ++ f :: outside := List.mem_append_left _ hk
    have hfk : f < k := (List.pairwise_append.mp h.descending).2.2 k hk f List.mem_cons_self
    obtain ⟨-, frame, hframe, -⟩ := h.opening k hwait
    rw [h.lonely?_interrupted hwait hfk hframe htag, hframe, Option.map_some]
  have hframes : (inside.map fun k => (tags[k]?).map (interrupted tag)) =
      frames.map fun frame => some (interrupted tag frame) := by
    have h := congrArg (List.map (Option.map (interrupted tag))) hinside
    rwa [List.map_map, List.map_map] at h
  rw [List.map_append, hkept, List.map_reverse, hinterrupted, hframes, ← List.map_reverse]

/-- What waits in the end was not closed. -/
theorem lonely?_leftOpen {frame : TagToken} (h : Account tags n pairs awaiting reported)
    (hk : k ∈ awaiting) (hframe : tags[k]? = some frame) :
    lonely? tags pairs k = some (leftOpen frame) := by
  obtain ⟨-, frame', hframe', htracked, hkind⟩ := h.opening k hk
  obtain rfl : frame = frame' := Option.some.inj (hframe.symm.trans hframe')
  rw [lonely?_eq hframe htracked, if_pos (h.ne_of_mem hk), lonelyCause, h.find?_of_mem hk, hkind]
  rfl

/-- A closing tag that closes nothing is unexpected. -/
theorem lonely?_unexpectedClose (h : Account tags n pairs awaiting reported)
    (htag : tags[n]? = some tag) (htracked : tag.isTracked = true) (hkind : tag.kind = .closing) :
    lonely? tags pairs n = some ⟨.unclosedTag tag.name .unexpectedClose, tag.position⟩ := by
  rw [lonely?_eq htag htracked, if_pos (h.ne_of_le (Nat.le_refl n)), lonelyCause, if_pos hkind]

/-- After the last tag, what is reported and what waits are the tags without a pair. -/
theorem perm (h : Account tags n pairs awaiting reported) : (reported ++ awaiting.reverse).Perm
    ((List.range n).filter fun k => (lonely? tags pairs k).isSome) := by
  refine (List.perm_ext_iff_of_nodup ?_ (List.nodup_range.filter _)).mpr fun k => ?_
  · refine List.nodup_append.mpr ⟨h.nodup, ?_, ?_⟩
    · exact List.pairwise_reverse.mpr (h.descending.imp fun h => Nat.ne_of_lt h)
    · rintro k hk _ hk' rfl
      exact ((h.mem_reported k).mp hk).2.2 (List.mem_reverse.mp hk')
  · rw [List.mem_append, List.mem_reverse, h.mem_reported, List.mem_filter, List.mem_range]
    constructor
    · rintro (⟨hk, hsome, -⟩ | hk)
      · exact ⟨hk, hsome⟩
      · obtain ⟨hkn, tag, htag, htracked, -⟩ := h.opening k hk
        exact ⟨hkn, isSome_lonely?_iff.mpr ⟨⟨tag, htag, htracked⟩, h.ne_of_mem hk⟩⟩
    · rintro ⟨hk, hsome⟩
      by_cases hwait : k ∈ awaiting
      · exact .inr hwait
      · exact .inl ⟨hk, hsome, hwait⟩

end Account

/-- The open elements are the tags that wait, and the faults found so far are those of the tags that
are reported. -/
def Tally (tags : List TagToken) (n : Nat) (stack : List TagToken) (found : List BalanceFault) :
    Prop :=
  ∃ pairs awaiting reported, Account tags n pairs awaiting reported ∧
    awaiting.map (fun k => tags[k]?) = stack.map some ∧
    reported.map (lonely? tags pairs) = found.map some

variable {stack rest : List TagToken} {found : List BalanceFault}

/-- An open element that is found stands between those opened after it and those around it. -/
theorem eq_of_unwind? {name : Text} {outer inner : List TagToken}
    (h : unwind? name stack = some (outer, inner)) :
    ∃ frame, frame.name = name ∧ stack = inner.reverse ++ frame :: outer := by
  induction stack generalizing inner with
  | nil => cases h
  | cons top stack ih =>
      by_cases hname : top.name = name
      · simp only [unwind?, hname, if_true, Option.some.injEq, Prod.mk.injEq] at h
        obtain ⟨rfl, rfl⟩ := h
        exact ⟨top, hname, rfl⟩
      · simp only [unwind?, hname, if_false, Option.map_eq_some_iff, Prod.exists,
          Prod.mk.injEq] at h
        obtain ⟨outer', inner', hunwind, rfl, rfl⟩ := h
        obtain ⟨frame, hframe, rfl⟩ := ih hunwind
        exact ⟨frame, hframe, by simp⟩

/-- No element is open and no fault is found before the first tag. -/
theorem Tally.start : Tally tags 0 [] [] := ⟨[], [], [], Account.start, rfl, rfl⟩

/-- One tag keeps the account. -/
theorem Tally.step (h : Tally tags n stack found) (htag : tags[n]? = some tag) :
    Tally tags (n + 1) (step stack tag).1
      (found ++ (step stack tag).2.filter (·.kind.isUnclosed)) := by
  obtain ⟨pairs, awaiting, reported, haccount, hstack, hreported⟩ := h
  cases htracked : tag.isTracked with
  | false =>
      obtain ⟨hnext, hnone⟩ : (Balance.step stack tag).1 = stack ∧
          (Balance.step stack tag).2.filter (·.kind.isUnclosed) = [] :=
        step_of_not_isTracked htracked
      rw [hnext, hnone, List.append_nil]
      exact ⟨pairs, awaiting, reported, haccount.skip htag htracked, hstack, hreported⟩
  | true =>
      cases hkind : tag.kind with
      | selfClosing => simp [TagToken.isTracked, hkind] at htracked
      | opening =>
          rw [step_of_opening hkind htracked, List.filter_nil, List.append_nil]
          refine ⟨pairs, n :: awaiting, reported, haccount.opens htag htracked hkind, ?_, hreported⟩
          rw [List.map_cons, List.map_cons, htag, hstack]
      | closing =>
          rw [step_of_closing hkind htracked]
          cases hunwind : unwind? tag.name stack with
          | none =>
              refine ⟨pairs, awaiting, reported ++ [n],
                haccount.rejects htag htracked hkind, hstack, ?_⟩
              rw [List.map_append, List.map_append, hreported, List.map_singleton,
                haccount.lonely?_unexpectedClose htag htracked hkind]
              rfl
          | some unwound =>
              obtain ⟨outer, inner⟩ := unwound
              obtain ⟨frame, hframe, rfl⟩ := eq_of_unwind? hunwind
              rw [List.map_append, List.map_cons] at hstack
              obtain ⟨inside, _, rfl, hinside, hrest⟩ := List.map_eq_append_iff.mp hstack
              obtain ⟨f, outside, rfl, hf, houtside⟩ := List.map_eq_cons_iff.mp hrest
              refine ⟨_, outside, _,
                haccount.closes htag htracked hkind hf hframe.symm, houtside, ?_⟩
              rw [filter_interrupted, haccount.map_lonely?_closes htag hinside, hreported,
                List.reverse_reverse, List.map_append, List.map_map]
              rfl

/-- The account is kept up to the last tag, and the elements open then are reported. -/
theorem Tally.run {before : List TagToken} (htags : tags = before ++ rest)
    (h : Tally tags before.length stack found) :
    ∃ stack' found', stack' = rest.foldl (fun stack tag => (Balance.step stack tag).1) stack ∧
      Tally tags tags.length stack' found' ∧
      found ++ (faultsFrom stack rest).filter (·.kind.isUnclosed) =
        found' ++ stack'.reverse.map leftOpen := by
  induction rest generalizing before stack found with
  | nil =>
      rw [List.append_nil] at htags
      refine ⟨stack, found, rfl, htags ▸ h, ?_⟩
      have hall : ∀ fault ∈ stack.reverse.map leftOpen, fault.kind.isUnclosed = true := by
        intro fault hfault
        obtain ⟨frame, -, rfl⟩ := List.mem_map.mp hfault
        rfl
      exact congrArg (found ++ ·) (List.filter_eq_self.mpr hall)
  | cons tag rest ih =>
      have htag : tags[before.length]? = some tag := by
        simp [htags]
      have hbefore : (before ++ [tag]).length = before.length + 1 := List.length_append
      have hfaults : faultsFrom stack (tag :: rest) =
          (Balance.step stack tag).2 ++ faultsFrom (Balance.step stack tag).1 rest := rfl
      rw [hfaults, List.filter_append, ← List.append_assoc]
      exact ih (by simp [htags]) (hbefore ▸ h.step htag)

/-- After the last tag, the faults are those of the tags without a pair, and the tags that wait are
among them. -/
theorem Tally.finish (h : Tally tags tags.length stack found) :
    ∃ (pairs : List (Nat × Nat)) (awaiting : List Nat), Pairing tags pairs ∧
      (found ++ stack.reverse.map leftOpen).Perm
        ((List.range tags.length).filterMap (lonely? tags pairs)) ∧
      awaiting.Pairwise (· > ·) ∧ awaiting.map (fun k => tags[k]?) = stack.map some ∧
      ∀ k ∈ awaiting, (∀ p ∈ pairs, p.1 ≠ k ∧ p.2 ≠ k) ∧
        lonely? tags pairs k = (tags[k]?).map leftOpen := by
  obtain ⟨pairs, awaiting, reported, haccount, hstack, hreported⟩ := h
  have hlonely : ∀ k ∈ awaiting, lonely? tags pairs k = (tags[k]?).map leftOpen := by
    intro k hk
    obtain ⟨-, frame, hframe, -⟩ := haccount.opening k hk
    rw [haccount.lonely?_leftOpen hk hframe, hframe, Option.map_some]
  have hawaiting :
      awaiting.map (lonely? tags pairs) = stack.map fun frame => some (leftOpen frame) := by
    have h := congrArg (List.map (Option.map leftOpen)) hstack
    rw [List.map_map, List.map_map] at h
    exact (List.map_congr_left hlonely).trans h
  have hfaults : (reported ++ awaiting.reverse).filterMap (lonely? tags pairs) =
      found ++ stack.reverse.map leftOpen := by
    have h : (reported ++ awaiting.reverse).map (lonely? tags pairs) =
        (found ++ stack.reverse.map leftOpen).map some := by
      rw [List.map_append, List.map_append, hreported, List.map_reverse, hawaiting, List.map_map,
        List.map_reverse]
      rfl
    have hsome := congrArg (List.filterMap id) h
    rwa [List.filterMap_map, List.filterMap_map, Function.id_comp, Function.id_comp,
      List.filterMap_some] at hsome
  have hrange : ((List.range tags.length).filter fun k => (lonely? tags pairs k).isSome).filterMap
      (lonely? tags pairs) = (List.range tags.length).filterMap (lonely? tags pairs) := by
    rw [List.filterMap_filter]
    congr 1
    funext k
    cases lonely? tags pairs k <;> rfl
  refine ⟨pairs, awaiting, haccount.pairing, ?_, haccount.descending, hstack, fun k hk => ?_⟩
  · rw [← hfaults, ← hrange]
    exact haccount.perm.filterMap _
  · exact ⟨haccount.ne_of_mem hk, hlonely k hk⟩

/-- Every tag is accounted for once. Opening tags are paired with later closing tags so that no two
pairs cross, the issues about tags without their counterpart are those of the tags that are not
paired, one for each, and the elements that are still open at the end are not paired and are
reported as such. -/
theorem exists_pairing (s : Scan) :
    ∃ (pairs : List (Nat × Nat)) (awaiting : List Nat), Pairing s.tags pairs ∧
      (s.issues.filter (·.kind.isUnclosed)).Perm
        (((List.range s.tags.length).filterMap (lonely? s.tags pairs)).map
          fun fault => s.issue fault.kind (some fault.position)) ∧
      awaiting.Pairwise (· > ·) ∧
      awaiting.map (fun k => s.tags[k]?) = (openAtEnd s.tags).map some ∧
      ∀ k ∈ awaiting, (∀ p ∈ pairs, p.1 ≠ k ∧ p.2 ≠ k) ∧
        lonely? s.tags pairs k = (s.tags[k]?).map leftOpen := by
  obtain ⟨_, found, rfl, hend, hfound⟩ := Tally.run (List.nil_append s.tags).symm Tally.start
  obtain ⟨pairs, awaiting, hpairing, hfaults, hrest⟩ := hend.finish
  refine ⟨pairs, awaiting, hpairing, s.perm_filter_isUnclosed.trans ?_, hrest⟩
  rw [← hfound] at hfaults
  exact hfaults.map _

end Balance

end MarkupRepair
