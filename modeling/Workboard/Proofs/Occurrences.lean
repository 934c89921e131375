import Workboard.Proofs.JoinedRanges

/-! Where the terms of a query occur in a text, and which of these places are highlighted.

A search from left to right finds an occurrence of a term unless it overlaps one that was found before (`Found`). The
highlighted ranges are joined from the spans of the found occurrences (`exists_joins_of_mem_highlight`), so a character is
highlighted exactly if it takes part in a found one (`highlight_covers`). An occurrence that overlaps no earlier one of its
term is found; of the others at least the first character is highlighted, but not always the last (`third_not_highlighted`). -/

namespace Workboard.Search

open ByteRange String

/-! ### Folded texts -/

section
variable {text : List Char} {start : ℕ} {c d : FoldedChar}

theorem foldChar_ne_nil (c : Char) : Text.foldChar c ≠ [] := by
  unfold Text.foldChar Text.lowerChar
  split_ifs <;> simp

/-- The character of the text that a folded one comes from. -/
theorem exists_of_mem_foldFrom (hc : c ∈ foldFrom start text) : ∃ before own after, text = before ++ own :: after ∧
    c.source = ⟨start + utf8Len before, start + utf8Len before + own.utf8Size⟩ ∧ c.char ∈ Text.foldChar own := by
  induction text generalizing start with
  | nil => cases hc
  | cons own r ih =>
    rcases List.mem_append.mp hc with hc | hc
    · obtain ⟨x, hx, rfl⟩ := List.mem_map.mp hc
      exact ⟨[], own, r, rfl, rfl, hx⟩
    · obtain ⟨before, other, after, rfl, hsource, hchar⟩ := ih hc
      refine ⟨own :: before, other, after, rfl, ?_, hchar⟩
      rw [hsource, utf8Len_cons, Nat.add_comm (utf8Len before), ← Nat.add_assoc]

theorem start_le_of_mem_foldFrom (hc : c ∈ foldFrom start text) : start ≤ c.source.start := by
  obtain ⟨before, own, after, -, hsource, -⟩ := exists_of_mem_foldFrom hc
  rw [hsource]
  exact Nat.le_add_right start (utf8Len before)

theorem start_lt_stop (hc : c ∈ foldFrom start text) : c.source.start < c.source.stop := by
  obtain ⟨before, own, after, -, hsource, -⟩ := exists_of_mem_foldFrom hc
  rw [hsource]
  exact Nat.lt_add_of_pos_right own.utf8Size_pos

/-- One folded character comes behind another: of the same character, or of the next one. -/
def Follows (c d : FoldedChar) : Prop := d.source = c.source ∨ d.source.start = c.source.stop

theorem isChain_foldFrom (start : ℕ) (text : List Char) : (foldFrom start text).IsChain Follows := by
  induction text generalizing start with
  | nil => exact List.isChain_nil
  | cons own r ih =>
    refine List.isChain_append.mpr ⟨?_, ih _, fun c hc d hd => Or.inr ?_⟩
    · exact (List.Pairwise.isChain (List.pairwise_map.mpr (List.pairwise_of_forall fun _ _ => Or.inl rfl)))
    · have hstop : c.source.stop = start + own.utf8Size := by
        obtain ⟨x, -, rfl⟩ := List.mem_map.mp (List.mem_of_mem_getLast? hc)
        rfl
      rw [hstop]
      -- No character folds to nothing, so the rest begins with one of its first character.
      cases r with
      | nil => cases hd
      | cons next r =>
        unfold foldFrom at hd
        obtain ⟨x, l, hx⟩ := List.exists_cons_of_ne_nil (foldChar_ne_nil next)
        rw [hx] at hd
        cases hd
        rfl

theorem source_eq_or_apart (hc : c ∈ foldFrom start text) (hd : d ∈ foldFrom start text) :
    c.source = d.source ∨ c.source.stop ≤ d.source.start ∨ d.source.stop ≤ c.source.start := by
  induction text generalizing start with
  | nil => cases hc
  | cons own r ih =>
    have hfirst : ∀ {e : FoldedChar}, e ∈ (Text.foldChar own).map (⟨·, ⟨start, start + own.utf8Size⟩⟩) →
        e.source = ⟨start, start + own.utf8Size⟩ := by
      rintro e he
      obtain ⟨x, -, rfl⟩ := List.mem_map.mp he
      rfl
    -- Both of the first character, one of it and one of the rest, or both of the rest.
    rcases List.mem_append.mp hc with hc | hc <;> rcases List.mem_append.mp hd with hd | hd
    · exact Or.inl ((hfirst hc).trans (hfirst hd).symm)
    · exact Or.inr (Or.inl (by rw [hfirst hc]; exact start_le_of_mem_foldFrom hd))
    · exact Or.inr (Or.inr (by rw [hfirst hd]; exact start_le_of_mem_foldFrom hc))
    · exact ih hc hd

theorem source_eq_of_mem_bytes (hc : c ∈ foldFrom start text) (hd : d ∈ foldFrom start text) {k : ℕ}
    (hkc : k ∈ c.source.bytes) (hkd : k ∈ d.source.bytes) : c.source = d.source := by
  rw [mem_bytes] at hkc hkd
  rcases source_eq_or_apart hc hd with h | h | h
  · exact h
  · omega
  · omega

end

/-- The range from the first of some folded characters to the last. -/
def span : List FoldedChar → ByteRange
  | [] => ⟨0, 0⟩
  | c :: r => ⟨c.source.start, (r.getLastD c).source.stop⟩

/-- Of characters that come one behind the other, the range has the bytes of each and no other. -/
theorem joins_span {c : FoldedChar} {r : List FoldedChar} (hchain : (c :: r).IsChain Follows)
    (hbytes : ∀ d ∈ c :: r, d.source.start < d.source.stop) : (span (c :: r)).Joins ((c :: r).map (·.source)) := by
  induction r generalizing c with
  | nil => exact Joins.single c.source
  | cons d r ih =>
    obtain ⟨hnext, hrest⟩ := List.isChain_cons_cons.mp hchain
    have hjoins := ih hrest fun e he => hbytes e (List.mem_cons_of_mem c he)
    have hc := hbytes c List.mem_cons_self
    have hd := hbytes d (List.mem_cons_of_mem c List.mem_cons_self)
    have hwithin : d.source.Within (span (d :: r)) := hjoins.within d.source List.mem_cons_self
    have hstart : (span (d :: r)).start = d.source.start := rfl
    have hstop : c.source.stop ≤ (span (d :: r)).stop := by
      refine le_trans ?_ hwithin.le_stop
      rcases hnext with hsame | htouch
      · rw [hsame]
      · omega
    have hspan : span (c :: d :: r) = ⟨c.source.start, max c.source.stop (span (d :: r)).stop⟩ := by
      rw [max_eq_right hstop, span, span, List.getLastD_cons]
    rw [hspan]
    refine (Joins.single c.source).append hjoins ?_ ?_ <;> rw [hstart] <;> rcases hnext with hsame | htouch
    · rw [hsame]
    · omega
    · rw [hsame]
      exact hc.le
    · exact htouch.le

/-! ### The places of a term -/

section
variable {term : List Char} {l : List FoldedChar} {i j : ℕ}

def StandsAt (term : List Char) (l : List FoldedChar) (i : ℕ) : Prop := term <+: (l.drop i).map (·.char)

/-- A search from left to right finds a term at a place: it stands there, and no place that was found before overlaps. -/
def Found (term : List Char) (l : List FoldedChar) (i : ℕ) : Prop :=
  StandsAt term l i ∧ ∀ j, j < i → i < j + term.length → ¬ Found term l j
termination_by i

theorem Found.stands (h : Found term l i) : StandsAt term l i := by
  rw [Found] at h
  exact h.1

/-- The places that a search picks, from the first one that is not skipped. -/
structure Picks (term : List Char) (l : List FoldedChar) (skip : ℕ) (places : List ℕ) : Prop where
  stands : ∀ i ∈ places, StandsAt term l i
  skipped : ∀ i ∈ places, skip ≤ i
  apart : ∀ i ∈ places, ∀ j ∈ places, i < j → i + term.length ≤ j
  first : ∀ i, skip ≤ i → StandsAt term l i → ∃ j ∈ places, j ≤ i ∧ i < j + term.length

namespace Picks

variable {skip : ℕ} {places : List ℕ}

theorem shift (h : Picks term l skip places) (c : FoldedChar) : Picks term (c :: l) (skip + 1) (places.map (· + 1)) where
  stands := List.forall_mem_map.mpr h.stands
  skipped := List.forall_mem_map.mpr fun i hi => Nat.succ_le_succ (h.skipped i hi)
  apart := List.forall_mem_map.mpr fun i hi => List.forall_mem_map.mpr fun j hj hlt => by
    have := h.apart i hi j hj (Nat.lt_of_succ_lt_succ hlt)
    omega
  first := fun i hi hstands => by
    obtain ⟨i, rfl⟩ := Nat.exists_eq_succ_of_ne_zero (Nat.ne_zero_of_lt hi)
    obtain ⟨j, hj, hle, hlt⟩ := h.first i (Nat.le_of_succ_le_succ hi) hstands
    exact ⟨j + 1, List.mem_map_of_mem hj, Nat.succ_le_succ hle, by omega⟩

/-- A place where the term does not stand makes no difference. -/
theorem pass (h : Picks term l (skip + 1) places) (hnot : ¬ StandsAt term l skip) : Picks term l skip places where
  stands := h.stands
  skipped := fun i hi => (Nat.le_succ skip).trans (h.skipped i hi)
  apart := h.apart
  first := fun i hi hstands => h.first i (Nat.lt_of_le_of_ne hi fun heq => hnot (heq ▸ hstands)) hstands

/-- A place where it stands is picked, and the search goes on behind it. -/
theorem cons (hstands : StandsAt term l skip) (h : Picks term l (skip + term.length) places) :
    Picks term l skip (skip :: places) where
  stands := List.forall_mem_cons.mpr ⟨hstands, h.stands⟩
  skipped := List.forall_mem_cons.mpr ⟨le_rfl, fun i hi => (Nat.le_add_right skip _).trans (h.skipped i hi)⟩
  apart := List.forall_mem_cons.mpr
    ⟨List.forall_mem_cons.mpr ⟨fun hlt => absurd hlt (Nat.lt_irrefl skip), fun j hj _ => h.skipped j hj⟩,
      fun i hi => List.forall_mem_cons.mpr
        ⟨fun hlt => absurd hlt (Nat.not_lt.mpr ((Nat.le_add_right skip _).trans (h.skipped i hi))), h.apart i hi⟩⟩
  first := fun i hi hat => by
    rcases Nat.lt_or_ge i (skip + term.length) with hlt | hge
    · exact ⟨skip, List.mem_cons_self, hi, hlt⟩
    · obtain ⟨j, hj, hle⟩ := h.first i hge hat
      exact ⟨j, List.mem_cons_of_mem skip hj, hle⟩

theorem mem_iff (h : Picks term l 0 places) : i ∈ places ↔ Found term l i := by
  induction i using Nat.strong_induction_on with
  | _ i ih =>
    rw [Found]
    constructor
    · intro hi
      refine ⟨h.stands i hi, fun j hlt hoverlap hfound => ?_⟩
      have := h.apart j ((ih j hlt).mpr hfound) i hi hlt
      omega
    · rintro ⟨hstands, hearlier⟩
      obtain ⟨j, hj, hle, hlt⟩ := h.first i (Nat.zero_le i) hstands
      rcases hle.lt_or_eq with hj' | rfl
      · exact absurd ((ih j hj').mp hj) (hearlier j hj' hlt)
      · exact hj

end Picks

def taken (term : List Char) (l : List FoldedChar) (i : ℕ) : List FoldedChar := (l.drop i).take term.length

theorem map_taken_eq_iff : (taken term l i).map (·.char) = term ↔ StandsAt term l i := by
  rw [StandsAt, taken, List.prefix_iff_eq_take, List.map_take]
  exact eq_comm

/-- A term's ranges are the spans of the places that are picked. -/
theorem exists_picks (hterm : term ≠ []) (skip : ℕ) (l : List FoldedChar) :
    ∃ places, Picks term l skip places ∧ rangesOf term skip l = places.map fun i => span (taken term l i) := by
  have hpos : 0 < term.length := List.length_pos_iff.mpr hterm
  induction l generalizing skip with
  | nil =>
    refine ⟨[], ⟨by simp, by simp, by simp, fun i _ hstands => ?_⟩, by unfold rangesOf; rfl⟩
    rw [StandsAt, List.drop_nil] at hstands
    exact absurd (List.prefix_nil.mp hstands) hterm
  | cons c r ih =>
    have htaken (places : List ℕ) : (places.map (· + 1)).map (fun i => span (taken term (c :: r) i)) =
        places.map fun i => span (taken term r i) := by
      rw [List.map_map]
      rfl
    -- The places of the rest, each one further on, and the first place if the term is found there.
    cases skip with
    | succ skip =>
      obtain ⟨places, hpicks, hranges⟩ := ih skip
      exact ⟨places.map (· + 1), hpicks.shift c, hranges.trans (htaken places).symm⟩
    | zero =>
      unfold rangesOf
      dsimp only
      split
      · rename_i hfound
        obtain ⟨places, hpicks, hranges⟩ := ih (term.length - 1)
        have hshift := hpicks.shift c
        rw [Nat.sub_add_cancel hpos, ← Nat.zero_add term.length] at hshift
        refine ⟨0 :: places.map (· + 1), Picks.cons (map_taken_eq_iff.mp hfound) hshift, ?_⟩
        rw [List.map_cons, htaken, hranges]
        obtain ⟨n, hn⟩ := Nat.exists_eq_succ_of_ne_zero hpos.ne'
        rw [taken, List.drop_zero, hn, List.take_succ_cons, List.getLastD_cons]
        rfl
      · rename_i hfound
        obtain ⟨places, hpicks, hranges⟩ := ih 0
        exact ⟨places.map (· + 1), (hpicks.shift c).pass (mt map_taken_eq_iff.mpr hfound),
          hranges.trans (htaken places).symm⟩

theorem mem_rangesOf (hterm : term ≠ []) {x : ByteRange} :
    x ∈ rangesOf term 0 l ↔ ∃ i, Found term l i ∧ x = span (taken term l i) := by
  obtain ⟨places, hpicks, hranges⟩ := exists_picks hterm 0 l
  rw [hranges, List.mem_map]
  constructor
  · rintro ⟨i, hi, rfl⟩
    exact ⟨i, hpicks.mem_iff.mp hi, rfl⟩
  · rintro ⟨i, hi, rfl⟩
    exact ⟨i, hpicks.mem_iff.mpr hi, rfl⟩

/-- Wherever a term stands, it is found there or at an earlier place that overlaps. -/
theorem exists_found (hterm : term ≠ []) (h : StandsAt term l i) : ∃ j, Found term l j ∧ j ≤ i ∧ i < j + term.length := by
  obtain ⟨places, hpicks, -⟩ := exists_picks hterm 0 l
  obtain ⟨j, hj, hle, hlt⟩ := hpicks.first i (Nat.zero_le i) h
  exact ⟨j, hpicks.mem_iff.mp hj, hle, hlt⟩

end

/-! ### Occurrences of a query's terms -/

/-- A place of a text, once it is folded, where a folded term of a query stands. -/
structure Occurrence (text query : String) where
  term : List Char
  place : ℕ
  asked : term ∈ (queryTerms query).map fun t => fold t.toList
  nonempty : term ≠ []
  stands : StandsAt term (foldFrom 0 text.toList) place

namespace Occurrence

variable {text query : String} {o o' : Occurrence text query} {c : FoldedChar}

def chars (o : Occurrence text query) : List FoldedChar := taken o.term (foldFrom 0 text.toList) o.place

/-- The bytes of the characters that take part. -/
def bytes (o : Occurrence text query) : Set ℕ := ⋃ c ∈ o.chars, c.source.bytes

def IsFound (o : Occurrence text query) : Prop := Found o.term (foldFrom 0 text.toList) o.place

/-- The occurrence starts inside an earlier one of its term. -/
def OverlapsEarlier (o : Occurrence text query) : Prop :=
  ∃ o' : Occurrence text query, o'.term = o.term ∧ o'.place < o.place ∧ o.place < o'.place + o'.term.length

theorem isInfix_chars (o : Occurrence text query) : o.chars <:+: foldFrom 0 text.toList :=
  (List.take_prefix _ _).isInfix.trans (List.drop_suffix _ _).isInfix

theorem mem_foldFrom (hc : c ∈ o.chars) : c ∈ foldFrom 0 text.toList := o.isInfix_chars.subset hc

theorem exists_chars_eq (o : Occurrence text query) : ∃ c r, o.chars = c :: r := by
  refine List.exists_cons_of_ne_nil fun hnil => o.nonempty ?_
  rw [← map_taken_eq_iff.mpr o.stands]
  exact List.map_eq_nil_iff.mpr hnil

theorem joins_span (o : Occurrence text query) : (span o.chars).Joins (o.chars.map (·.source)) := by
  have hchain : o.chars.IsChain Follows := by
    obtain ⟨before, after, hfolded⟩ := o.isInfix_chars
    exact (hfolded ▸ isChain_foldFrom 0 text.toList).left_of_append.right_of_append
  have hbytes : ∀ c ∈ o.chars, c.source.start < c.source.stop := fun c hc => start_lt_stop (mem_foldFrom hc)
  obtain ⟨c, r, hchars⟩ := o.exists_chars_eq
  rw [hchars] at hchain hbytes ⊢
  exact Search.joins_span hchain hbytes

theorem within_span (hc : c ∈ o.chars) : c.source.Within (span o.chars) :=
  o.joins_span.within c.source (List.mem_map_of_mem hc)

theorem bytes_span (o : Occurrence text query) : (span o.chars).bytes = o.bytes := by
  rw [o.joins_span.bytes_eq, bytes]
  ext k
  simp only [Set.mem_iUnion, List.mem_map, exists_prop, exists_exists_and_eq_and]

theorem isFound_of_not_overlapsEarlier (h : ¬ o.OverlapsEarlier) : o.IsFound := by
  rw [IsFound, Found]
  exact ⟨o.stands, fun j hlt hoverlap hfound =>
    h ⟨⟨o.term, j, o.asked, o.nonempty, hfound.stands⟩, rfl, hlt, hoverlap⟩⟩

/-- The first character of an occurrence takes part in one that is found. -/
theorem exists_isFound_of_head? (hc : o.chars.head? = some c) : ∃ o' : Occurrence text query, o'.IsFound ∧ c ∈ o'.chars := by
  obtain ⟨j, hfound, hle, hlt⟩ := exists_found o.nonempty o.stands
  refine ⟨⟨o.term, j, o.asked, o.nonempty, hfound.stands⟩, hfound, ?_⟩
  have hplace : (foldFrom 0 text.toList)[o.place]? = some c := by
    have hpos : 0 < o.term.length := List.length_pos_iff.mpr o.nonempty
    rwa [chars, taken, List.head?_take, if_neg hpos.ne', List.head?_drop] at hc
  have hoffset : o.place - j < o.term.length := by omega
  refine List.mem_of_getElem? (i := o.place - j) ?_
  rw [chars, taken, List.getElem?_take_of_lt hoffset, List.getElem?_drop, Nat.add_sub_cancel' hle]
  exact hplace

end Occurrence

/-! ### Highlighted ranges -/

section
variable {text query : String} {x : ByteRange} {o : Occurrence text query}

/-- The ranges that are found, before they are joined. -/
def foundRanges (text query : String) : List ByteRange :=
  ((queryTerms query).map fun t => fold t.toList).flatMap fun term =>
    if term.isEmpty then [] else rangesOf term 0 (foldFrom 0 text.toList)

theorem mem_foundRanges : x ∈ foundRanges text query ↔ ∃ o : Occurrence text query, o.IsFound ∧ x = span o.chars := by
  unfold foundRanges
  rw [List.mem_flatMap]
  constructor
  · rintro ⟨term, hasked, hx⟩
    split at hx
    · cases hx
    · rename_i hempty
      have hterm : term ≠ [] := mt List.isEmpty_iff.mpr hempty
      obtain ⟨i, hfound, rfl⟩ := (mem_rangesOf hterm).mp hx
      exact ⟨⟨term, i, hasked, hterm, hfound.stands⟩, hfound, rfl⟩
  · rintro ⟨o, hfound, rfl⟩
    refine ⟨o.term, o.asked, ?_⟩
    rw [if_neg (mt List.isEmpty_iff.mp o.nonempty)]
    exact (mem_rangesOf o.nonempty).mpr ⟨o.place, hfound, rfl⟩

theorem pairwise_highlight (text query : String) : (highlight text query).Pairwise fun x y => x.stop < y.start :=
  pairwise_joinRanges (pairwise_start_mergeSort (foundRanges text query))

theorem exists_joins_of_mem_highlight (hx : x ∈ highlight text query) :
    ∃ parts, (∀ p ∈ parts, ∃ o : Occurrence text query, o.IsFound ∧ p = span o.chars) ∧ x.Joins parts := by
  obtain ⟨parts, hparts, hjoins⟩ := exists_joins_of_mem (pairwise_start_mergeSort (foundRanges text query)) hx
  exact ⟨parts, fun p hp => mem_foundRanges.mp (List.mem_mergeSort.mp (hparts p hp)), hjoins⟩

theorem exists_within_highlight (ho : o.IsFound) : ∃ x ∈ highlight text query, (span o.chars).Within x :=
  exists_within_joinRanges (pairwise_start_mergeSort (foundRanges text query))
    (List.mem_mergeSort.mpr (mem_foundRanges.mpr ⟨o, ho, rfl⟩))

def Highlighted (text query : String) (c : FoldedChar) : Prop := ∃ x ∈ highlight text query, c.source.Within x

theorem highlighted_of_isFound {c : FoldedChar} (ho : o.IsFound) (hc : c ∈ o.chars) : Highlighted text query c := by
  obtain ⟨x, hx, hwithin⟩ := exists_within_highlight ho
  exact ⟨x, hx, (Occurrence.within_span hc).trans hwithin⟩

/-- What is highlighted is just what takes part in an occurrence that a search from left to right finds. All of an
    occurrence is that overlaps no earlier one of its term, and the first character of any. -/
theorem highlight_covers (text query : String) :
    (∀ c ∈ foldFrom 0 text.toList, Highlighted text query c ↔
      ∃ o : Occurrence text query, o.IsFound ∧ ∃ d ∈ o.chars, d.source = c.source) ∧
    (∀ o : Occurrence text query, ¬ o.OverlapsEarlier → ∀ c ∈ o.chars, Highlighted text query c) ∧
    ∀ o : Occurrence text query, ∀ c, o.chars.head? = some c → Highlighted text query c := by
  refine ⟨fun c hc => ⟨?_, ?_⟩, fun o ho c hc => ?_, fun o c hc => ?_⟩
  · rintro ⟨x, hx, hwithin⟩
    obtain ⟨parts, hparts, hjoins⟩ := exists_joins_of_mem_highlight hx
    -- The first byte of the character lies in one of the spans that the range is joined from.
    have hk : c.source.start ∈ x.bytes := by
      rw [mem_bytes]
      exact ⟨hwithin.start_le, (start_lt_stop hc).trans_le hwithin.le_stop⟩
    obtain ⟨p, hp, hkp⟩ := hjoins.covered _ hk
    obtain ⟨o, ho, rfl⟩ := hparts p hp
    rw [o.bytes_span, Occurrence.bytes, Set.mem_iUnion₂] at hkp
    obtain ⟨d, hd, hkd⟩ := hkp
    refine ⟨o, ho, d, hd, source_eq_of_mem_bytes (Occurrence.mem_foldFrom hd) hc hkd ?_⟩
    exact mem_bytes.mpr ⟨le_rfl, start_lt_stop hc⟩
  · rintro ⟨o, ho, d, hd, hsource⟩
    obtain ⟨x, hx, hwithin⟩ := highlighted_of_isFound ho hd
    exact ⟨x, hx, hsource ▸ hwithin⟩
  · exact highlighted_of_isFound (Occurrence.isFound_of_not_overlapsEarlier ho) hc
  · obtain ⟨o', ho', hc'⟩ := Occurrence.exists_isFound_of_head? hc
    exact highlighted_of_isFound ho' hc'

end

/-- An occurrence of two letters in a text of three. -/
def double (place : ℕ) (h : StandsAt ['a', 'a'] (foldFrom 0 "aaa".toList) place) : Occurrence "aaa" "aa" :=
  ⟨['a', 'a'], place, by decide +kernel, by decide, h⟩

/-- The term `aa` occurs twice in `aaa`. The second occurrence overlaps the first one, so its last letter, the third of the
    text, is not highlighted; its first letter is, and so is all of the first one. -/
theorem third_not_highlighted : ∃ early late : Occurrence "aaa" "aa",
    ¬ early.OverlapsEarlier ∧ (∀ c ∈ early.chars, Highlighted "aaa" "aa" c) ∧
    late.chars = [⟨'a', ⟨1, 2⟩⟩, ⟨'a', ⟨2, 3⟩⟩] ∧ Highlighted "aaa" "aa" ⟨'a', ⟨1, 2⟩⟩ ∧
    ¬ Highlighted "aaa" "aa" ⟨'a', ⟨2, 3⟩⟩ ∧
    ∀ o : Occurrence "aaa" "aa", o.IsFound → ∀ d ∈ o.chars, d.source ≠ ⟨2, 3⟩ := by
  have hearly : StandsAt ['a', 'a'] (foldFrom 0 "aaa".toList) 0 := ⟨['a'], by decide⟩
  have hlate : StandsAt ['a', 'a'] (foldFrom 0 "aaa".toList) 1 := ⟨[], by decide⟩
  have hnone : ¬ (double 0 hearly).OverlapsEarlier := fun ⟨_, _, hlt, _⟩ => Nat.not_lt_zero _ hlt
  have hhighlight : highlight "aaa" "aa" = [⟨0, 2⟩] := by decide +kernel
  have hthird : ¬ Highlighted "aaa" "aa" ⟨'a', ⟨2, 3⟩⟩ := by
    rintro ⟨x, hx, hwithin⟩
    rw [hhighlight, List.mem_singleton] at hx
    subst hx
    exact absurd hwithin.le_stop (by decide)
  obtain ⟨hiff, hall, hhead⟩ := highlight_covers "aaa" "aa"
  have hfolded : foldFrom 0 "aaa".toList = [⟨'a', ⟨0, 1⟩⟩, ⟨'a', ⟨1, 2⟩⟩, ⟨'a', ⟨2, 3⟩⟩] := rfl
  refine ⟨double 0 hearly, double 1 hlate, hnone, hall _ hnone, rfl, hhead (double 1 hlate) _ rfl, hthird,
    fun o ho d hd hsource => hthird ?_⟩
  exact (hiff _ (by rw [hfolded]; simp)).mpr ⟨o, ho, d, hd, hsource⟩

end Workboard.Search
