import Mathlib
import Workboard.Search.Index

/-! The results of a search.

Scores are compared as numbers, which is an order as long as none of them is undefined; a score above zero never is
(`isNaN_of_pos`). So the hits that have a score are sorted (`pairwise_mergeSort`), the first hit of an entity is its best
one (`exists_mem_distinct`), and what is not among the results was displaced by a better hit of its own entity or by a
full list of better hits (`Index.search_ranks`). The hits come in no order of their own. One that they had before they
were sorted shows where several of one score have one id, and nowhere else (`Index.rank_order`). -/

namespace Workboard.Search

open Float.Model (UnpackedFloat)

/-! ### The order of scores -/

/-- The place of a number among all numbers. Of two finite numbers of one sign the exponent decides, then the
    significand. -/
def standing : UnpackedFloat → ℤ ×ₗ ℤ ×ₗ ℤ
  | .infinity .negative => toLex (-2, toLex (0, 0))
  | .finite .negative m e _ => toLex (-1, toLex (-e, -m))
  | .zero _ => toLex (0, toLex (0, 0))
  | .finite .positive m e _ => toLex (1, toLex (e, m))
  | .infinity .positive => toLex (2, toLex (0, 0))
  | .notANumber => toLex (3, toLex (0, 0))

theorem unpacked_lt_iff (a b : UnpackedFloat) :
    a.lt b = true ↔ a.isNaN = false ∧ b.isNaN = false ∧ standing a < standing b := by
  have hsign : compare UnpackedFloat.Sign.negative .positive = .lt := rfl
  have hpair {m n : ℕ} {d e : ℤ} : (compare d e).then (compare m n) = .lt ↔ d < e ∨ d = e ∧ m < n := by
    rw [Ordering.then_eq_lt, compare_lt_iff_lt, compare_eq_iff_eq, compare_lt_iff_lt]
  have hswap {m n : ℕ} {d e : ℤ} : ((compare d e).then (compare m n)).swap = .lt ↔ e < d ∨ d = e ∧ n < m := by
    rw [Ordering.swap_eq_lt, Ordering.then_eq_gt, compare_gt_iff_gt, compare_eq_iff_eq, compare_gt_iff_gt]
  have hlex {a b c d e f : ℤ} : (toLex (a, toLex (b, c)) : ℤ ×ₗ ℤ ×ₗ ℤ) < toLex (d, toLex (e, f)) ↔
      a < d ∨ a = d ∧ (b < e ∨ b = e ∧ c < f) := by
    simp only [Prod.Lex.toLex_lt_toLex]
  unfold UnpackedFloat.lt
  rw [beq_iff_eq]
  rcases a with ⟨_ | _⟩ | _ | ⟨_ | _⟩ | ⟨_ | _, m, d, hm⟩ <;> rcases b with ⟨_ | _⟩ | _ | ⟨_ | _⟩ | ⟨_ | _, n, e, hn⟩ <;>
    simp [UnpackedFloat.compare, UnpackedFloat.isNaN, standing, hlex, hsign, hpair, hswap]

section
variable {x y z : Float32}

theorem lt_iff_standing :
    x < y ↔ x.isNaN = false ∧ y.isNaN = false ∧ standing x.toModel.unpack < standing y.toModel.unpack := by
  have hmodel : x < y ↔ x.toModel < y.toModel := decide_eq_true_iff
  exact hmodel.trans (unpacked_lt_iff x.toModel.unpack y.toModel.unpack)

theorem isNaN_of_pos (hx : 0 < x) : x.isNaN = false := (lt_iff_standing.mp hx).2.1

/-- A number above zero is told by its place. -/
theorem eq_of_standing (hx : 0 < x) (hy : 0 < y) (h : standing x.toModel.unpack = standing y.toModel.unpack) : x = y := by
  have hpos {x : Float32} (hx : 0 < x) : standing (.zero .positive) < standing x.toModel.unpack :=
    (lt_iff_standing.mp hx).2.2
  have hunpack : x.toModel.unpack = y.toModel.unpack := by
    have hx := hpos hx
    have hy := hpos hy
    generalize x.toModel.unpack = a at hx h
    generalize y.toModel.unpack = b at hy h
    rcases a with ⟨_ | _⟩ | _ | ⟨_ | _⟩ | ⟨_ | _, m, d, hm⟩ <;>
      rcases b with ⟨_ | _⟩ | _ | ⟨_ | _⟩ | ⟨_ | _, n, e, hn⟩ <;>
        simp [standing, Prod.Lex.toLex_lt_toLex] at hx hy h ⊢
    exact ⟨h.2, h.1⟩
  rw [← Float32.ofBits_toBits x, ← Float32.ofBits_toBits y]
  exact congrArg (fun u => Float32.ofModel (.pack u)) hunpack

end

/-! ### Hits in order -/

namespace Hit

/-- A hit with a higher score than another, or with the same score and an id that is not greater. -/
def Ahead (a b : Hit) : Prop := b.score < a.score ∨ a.score = b.score ∧ a.document.id ≤ b.document.id

variable {a b c h : Hit} {l : List Hit} {seen : List EntityKey}

theorem Ahead.refl (a : Hit) : a.Ahead a := .inr ⟨rfl, String.le_refl _⟩

theorem Ahead.trans (hab : a.Ahead b) (hbc : b.Ahead c) : a.Ahead c := by
  rcases hab with hab | ⟨hab, habid⟩
  · rcases hbc with hbc | ⟨hbc, -⟩
    · have hb := lt_iff_standing.mp hab
      have hc := lt_iff_standing.mp hbc
      exact .inl (lt_iff_standing.mpr ⟨hc.1, hb.2.1, hc.2.2.trans hb.2.2⟩)
    · exact .inl (hbc ▸ hab)
  · rcases hbc with hbc | ⟨hbc, hbcid⟩
    · exact .inl (hab ▸ hbc)
    · exact .inr ⟨hab.trans hbc, String.le_trans habid hbcid⟩

/-- What a hit is sorted by. -/
def sortKey (h : Hit) : Float32 × String := (h.score, h.document.id)

/-- What is ahead of another and behind it is sorted like it. -/
theorem sortKey_antisymm {x y : Float32 × String} (hxy : y.1 < x.1 ∨ x.1 = y.1 ∧ x.2 ≤ y.2)
    (hyx : x.1 < y.1 ∨ y.1 = x.1 ∧ y.2 ≤ x.2) : x = y := by
  have hasymm {x y : Float32} (h : x < y) : ¬ y < x := fun h' =>
    lt_asymm (lt_iff_standing.mp h).2.2 (lt_iff_standing.mp h').2.2
  rcases hxy with hlt | ⟨hscore, hid⟩
  · rcases hyx with hlt' | ⟨hscore, -⟩
    · exact absurd hlt' (hasymm hlt)
    · rw [hscore] at hlt
      exact absurd hlt (hasymm hlt)
  · rcases hyx with hlt | ⟨-, hid'⟩
    · rw [hscore] at hlt
      exact absurd hlt (hasymm hlt)
    · exact Prod.ext hscore (String.le_antisymm hid hid')

theorem isBefore_iff (ha : 0 < a.score) (hb : 0 < b.score) : a.isBefore b = true ↔ a.Ahead b := by
  have hlt {x y : Float32} (hx : 0 < x) (hy : 0 < y) :
      x < y ↔ standing x.toModel.unpack < standing y.toModel.unpack := by
    rw [lt_iff_standing]
    exact ⟨fun h => h.2.2, fun h => ⟨isNaN_of_pos hx, isNaN_of_pos hy, h⟩⟩
  unfold isBefore Ahead
  simp only [hlt hb ha, hlt ha hb]
  rcases lt_trichotomy (standing a.score.toModel.unpack) (standing b.score.toModel.unpack) with h | h | h
  · have hne : a.score ≠ b.score := fun heq => h.ne (by rw [heq])
    simp [h, h.not_gt, hne]
  · have heq := eq_of_standing ha hb h
    simp [heq]
  · simp [h]

theorem isBefore_total (a b : Hit) : (a.isBefore b || b.isBefore a) = true := by
  unfold isBefore
  have hid := String.le_total a.document.id b.document.id
  split_ifs <;> simp_all

/-- Hits with a score are sorted. -/
theorem pairwise_mergeSort (hl : ∀ a ∈ l, 0 < a.score) : (l.mergeSort isBefore).Pairwise Ahead := by
  have hval := List.attachWith_map_subtype_val hl
  have hsort : ((l.attachWith _ hl).mergeSort fun a b => a.1.isBefore b.1).map Subtype.val = l.mergeSort isBefore := by
    rw [List.map_mergeSort (s := isBefore) fun _ _ _ _ => rfl, hval]
  have htrans (a b c : { h : Hit // 0 < h.score }) (hab : a.1.isBefore b.1 = true) (hbc : b.1.isBefore c.1 = true) :
      a.1.isBefore c.1 = true :=
    (isBefore_iff a.2 c.2).mpr (((isBefore_iff a.2 b.2).mp hab).trans ((isBefore_iff b.2 c.2).mp hbc))
  rw [← hsort, List.pairwise_map]
  exact (List.pairwise_mergeSort htrans (fun a b => isBefore_total a.1 b.1) _).imp fun {a b} => (isBefore_iff a.2 b.2).mp

/-! ### One hit for every entity -/

theorem distinct_sublist (seen : List EntityKey) (l : List Hit) : (distinct seen l).Sublist l := by
  induction l generalizing seen with
  | nil => exact .slnil
  | cons h r ih =>
    rw [distinct]
    split
    · exact (ih seen).cons h
    · exact (ih _).cons_cons h

theorem nodup_distinct (seen : List EntityKey) (l : List Hit) :
    ((distinct seen l).map (·.document.entity)).Nodup ∧ ∀ r ∈ distinct seen l, r.document.entity ∉ seen := by
  induction l generalizing seen with
  | nil => exact ⟨List.nodup_nil, by simp [distinct]⟩
  | cons h r ih =>
    rw [distinct]
    split
    · exact ih seen
    · rename_i hnew
      obtain ⟨hnodup, hunseen⟩ := ih (h.document.entity :: seen)
      refine ⟨List.nodup_cons.mpr ⟨fun hmem => ?_, hnodup⟩, List.forall_mem_cons.mpr ⟨hnew, fun x hx => ?_⟩⟩
      · obtain ⟨x, hx, heq⟩ := List.mem_map.mp hmem
        exact hunseen x hx (heq ▸ List.mem_cons_self)
      · exact fun hmem => hunseen x hx (List.mem_cons_of_mem _ hmem)

/-- Of sorted hits the one that stays for an entity is its best. -/
theorem exists_mem_distinct (seen : List EntityKey) (hl : l.Pairwise Ahead) (hh : h ∈ l) (hseen : h.document.entity ∉ seen) :
    ∃ r ∈ distinct seen l, r.document.entity = h.document.entity ∧ r.Ahead h := by
  induction l generalizing seen with
  | nil => cases hh
  | cons x r ih =>
    obtain ⟨hx, hr⟩ := List.pairwise_cons.mp hl
    rw [distinct]
    rcases List.mem_cons.mp hh with rfl | hh
    · rw [if_neg hseen]
      exact ⟨h, List.mem_cons_self, rfl, .refl h⟩
    · split
      · exact ih seen hr hh hseen
      · by_cases hsame : h.document.entity = x.document.entity
        · exact ⟨x, List.mem_cons_self, hsame.symm, hx h hh⟩
        · obtain ⟨y, hy, hyh⟩ := ih (x.document.entity :: seen) hr hh (by simp [hsame, hseen])
          exact ⟨y, List.mem_cons_of_mem x hy, hyh⟩

/-- A sorted list keeps a hit when it is cut, or is full of hits ahead of it. -/
theorem mem_take_or_ahead (hl : l.Pairwise Ahead) (hh : h ∈ l) (n : ℕ) :
    h ∈ l.take n ∨ (l.take n).length = n ∧ ∀ r ∈ l.take n, r.Ahead h := by
  rw [← List.take_append_drop n l] at hl hh
  rcases List.mem_append.mp hh with hh | hh
  · exact .inl hh
  · have hlong : n < l.length := by
      by_contra hshort
      rw [List.drop_eq_nil_of_le (not_lt.mp hshort)] at hh
      cases hh
    exact .inr ⟨List.length_take_of_le hlong.le, fun r hr => (List.pairwise_append.mp hl).2.2 r hr h hh⟩

end Hit

/-! ### Results -/

/-- The best of some hits, at most so many, one for every entity. -/
structure Ranks (limit : ℕ) (hits results : List Hit) : Prop where
  length_le : results.length ≤ limit
  mem : ∀ r ∈ results, r ∈ hits
  scored : ∀ r ∈ results, 0 < r.score ∧ r.score.isNaN = false
  ordered : results.Pairwise Hit.Ahead
  distinct : (results.map (·.document.entity)).Nodup
  /-- A hit that is missing gave way to a better one of its entity, or to a full list of better ones. -/
  complete : ∀ h ∈ hits, 0 < h.score → (∃ r ∈ results, r.document.entity = h.document.entity ∧ r.Ahead h) ∨
    results.length = limit ∧ ∀ r ∈ results, r.Ahead h

namespace Index

/-- Every document with its accumulated score. -/
def hits (x : Index) (query : String) : List Hit := x.documents.zipWith Hit.ofTally (x.tallies query)

/-- The index with another limit. -/
def limited (x : Index) (limit : ℕ) : Index := { x with profile := { x.profile with limit } }

theorem tallies_limited (x : Index) (limit : ℕ) (query : String) :
    (x.limited limit).tallies query = x.tallies query := rfl

/-- Steps that keep the number of scores keep it together. -/
theorem length_foldl {α : Type} {step : List Tally → α → List Tally} (h : ∀ t a, (step t a).length = t.length)
    (l : List α) (t : List Tally) : (l.foldl step t).length = t.length := by
  induction l generalizing t with
  | nil => rfl
  | cons a r ih => rw [List.foldl_cons, ih, h]

theorem length_addPostings (x : Index) (f : FieldIndex) (weight : Float32) (postings : List Posting) (t : List Tally) :
    (x.addPostings f weight postings t).length = t.length := by
  unfold addPostings
  refine length_foldl (fun t p => ?_) postings t
  exact List.length_modify _ _ _

theorem length_addTerm (x : Index) (term : String) (weight : Float32) (direct : Bool) (t : List Tally) :
    (x.addTerm term weight direct t).length = t.length := by
  unfold addTerm
  refine length_foldl (fun t f => ?_) x.fields t
  refine length_foldl (fun t l => ?_) (x.postingsOf term weight direct f) t
  exact length_addPostings x f l.2 l.1 t

/-- Every document has a score. -/
theorem length_tallies (x : Index) (query : String) : (x.tallies query).length = x.documents.length := by
  have hterm (t : List Tally) (term : String) : (x.addQueryTerm t term).length = t.length := by
    unfold addQueryTerm
    split
    · exact length_addTerm ..
    · exact length_foldl (fun _ _ => length_addTerm ..) _ t
  unfold tallies
  rw [List.length_zipWith, length_foldl hterm, List.length_map, Nat.min_self]

/-- The results before the list is cut. -/
def ranked (x : Index) (tallies : List Tally) (order : List ℕ) : List Hit :=
  Hit.distinct [] (((rearranged order (x.documents.zipWith Hit.ofTally tallies)).filter fun h => 0 < h.score).mergeSort
    Hit.isBefore)

theorem rank_eq (x : Index) (tallies : List Tally) (order : List ℕ) :
    x.rank tallies order = (x.ranked tallies order).take x.profile.limit := rfl

/-- Of each entity with a score the best hit is ranked, and the ranked hits are in order. -/
structure Best (hits best : List Hit) : Prop where
  mem : ∀ r ∈ best, r ∈ hits ∧ 0 < r.score
  ordered : best.Pairwise Hit.Ahead
  distinct : (best.map (·.document.entity)).Nodup
  complete : ∀ h ∈ hits, 0 < h.score → ∃ r ∈ best, r.document.entity = h.document.entity ∧ r.Ahead h

theorem best_ranked (x : Index) (tallies : List Tally) (order : List ℕ) :
    Best (x.documents.zipWith Hit.ofTally tallies) (x.ranked tallies order) := by
  unfold ranked
  generalize x.documents.zipWith Hit.ofTally tallies = hits
  let scored := (rearranged order hits).filter fun h => 0 < h.score
  have hscored (h : Hit) : h ∈ scored.mergeSort Hit.isBefore ↔ h ∈ hits ∧ 0 < h.score := by
    rw [(List.mergeSort_perm _ _).mem_iff, List.mem_filter, (rearranged_perm order hits).mem_iff, decide_eq_true_eq]
  have hsorted := Hit.pairwise_mergeSort (l := scored) fun h hh => of_decide_eq_true (List.mem_filter.mp hh).2
  have hbest := Hit.distinct_sublist [] (scored.mergeSort Hit.isBefore)
  exact ⟨fun r hr => (hscored r).mp (hbest.subset hr), hsorted.sublist hbest, (Hit.nodup_distinct [] _).1,
    fun h hh hpos => Hit.exists_mem_distinct [] hsorted ((hscored h).mpr ⟨hh, hpos⟩) List.not_mem_nil⟩

theorem ranks_rank (x : Index) (tallies : List Tally) (order : List ℕ) :
    Ranks x.profile.limit (x.documents.zipWith Hit.ofTally tallies) (x.rank tallies order) := by
  have h := x.best_ranked tallies order
  rw [rank_eq]
  have hmem : ∀ r ∈ (x.ranked tallies order).take x.profile.limit, r ∈ x.documents.zipWith Hit.ofTally tallies ∧ 0 < r.score :=
    fun r hr => h.mem r (List.mem_of_mem_take hr)
  refine ⟨List.length_take_le _ _, fun r hr => (hmem r hr).1,
    fun r hr => ⟨(hmem r hr).2, isNaN_of_pos (hmem r hr).2⟩, h.ordered.sublist (List.take_sublist _ _),
    h.distinct.sublist ((List.take_sublist _ _).map _), fun x hx hpos => ?_⟩
  obtain ⟨r, hr, hentity, hahead⟩ := h.complete x hx hpos
  rcases Hit.mem_take_or_ahead h.ordered hr _ with hr | ⟨hfull, hall⟩
  · exact .inl ⟨r, hr, hentity, hahead⟩
  · exact .inr ⟨hfull, fun s hs => (hall s hs).trans hahead⟩

/-! ### Orders of the hits -/

/-- However the hits were ordered, of an entity the same is ranked as far as sorting can tell. -/
theorem Best.sortKey_subset {hits best best' : List Hit} (h : Best hits best) (h' : Best hits best') :
    best.map (fun r => (r.sortKey, r.document.entity)) ⊆ best'.map fun r => (r.sortKey, r.document.entity) := by
  intro e he
  obtain ⟨r, hr, rfl⟩ := List.mem_map.mp he
  obtain ⟨hmem, hpos⟩ := h.mem r hr
  obtain ⟨r', hr', hentity, hahead⟩ := h'.complete r hmem hpos
  obtain ⟨hmem', hpos'⟩ := h'.mem r' hr'
  obtain ⟨s, hs, hsame, hbehind⟩ := h.complete r' hmem' hpos'
  -- There is one hit of the entity only, so each of the two is ahead of the other.
  obtain rfl := List.inj_on_of_nodup_map h.distinct hs hr (hsame.trans hentity)
  exact List.mem_map.mpr ⟨r', hr', Prod.ext (Hit.sortKey_antisymm hahead hbehind) hentity⟩

theorem Best.nodup {hits best : List Hit} (h : Best hits best) :
    (best.map fun r => (r.sortKey, r.document.entity)).Nodup := by
  refine List.Nodup.of_map Prod.snd ?_
  rw [List.map_map]
  exact h.distinct

/-- However the hits were ordered, the ranked ones have the same scores and ids. -/
theorem Best.map_sortKey {hits best best' : List Hit} (h : Best hits best) (h' : Best hits best') :
    best.map Hit.sortKey = best'.map Hit.sortKey := by
  have hperm := (List.perm_ext_iff_of_nodup h.nodup h'.nodup).mpr fun e =>
    ⟨fun he => h.sortKey_subset h' he, fun he => h'.sortKey_subset h he⟩
  have hkeys := hperm.map Prod.fst
  rw [List.map_map, List.map_map] at hkeys
  exact hkeys.eq_of_pairwise (fun x y _ _ => Hit.sortKey_antisymm) (List.pairwise_map.mpr h.ordered)
    (List.pairwise_map.mpr h'.ordered)

/-- Hits with ids of their own are ranked alike in every order. -/
theorem Best.eq {hits best best' : List Hit} (h : Best hits best) (h' : Best hits best')
    (hids : (hits.map (·.document.id)).Nodup) : best = best' := by
  have hone {r r' : Hit} (hr : r ∈ hits) (hr' : r' ∈ hits) (hkey : r.sortKey = r'.sortKey) : r = r' :=
    List.inj_on_of_nodup_map hids hr hr' (congrArg Prod.snd hkey)
  have hsubset {best best' : List Hit} (h : Best hits best) (h' : Best hits best') : best ⊆ best' := by
    intro r hr
    obtain ⟨r', hr', hkey⟩ := List.mem_map.mp (h.sortKey_subset h' (List.mem_map_of_mem hr))
    exact hone (h'.mem r' hr').1 (h.mem r hr).1 (congrArg Prod.fst hkey) ▸ hr'
  have hperm := (List.perm_ext_iff_of_nodup h.distinct.of_map h'.distinct.of_map).mpr fun r =>
    ⟨fun hr => hsubset h h' hr, fun hr => hsubset h' h hr⟩
  exact hperm.eq_of_pairwise
    (fun r r' hr hr' hahead hbehind => hone (h.mem r hr).1 (h'.mem r' hr').1 (Hit.sortKey_antisymm hahead hbehind))
    h.ordered h'.ordered

theorem ids_zipWith_sublist (docs : List Document) (tallies : List Tally) :
    ((docs.zipWith Hit.ofTally tallies).map (·.document.id)).Sublist (docs.map (·.id)) := by
  induction docs generalizing tallies with
  | nil => exact .slnil
  | cons d docs ih =>
    cases tallies with
    | nil => exact List.nil_sublist _
    | cons t tallies => exact (ih tallies).cons_cons d.id

/-- The results do not depend on the order of the hits, as far as sorting can tell; and not at all where all documents have
    ids of their own. -/
theorem rank_order (x : Index) (tallies : List Tally) (order order' : List ℕ) :
    (x.rank tallies order).map Hit.sortKey = (x.rank tallies order').map Hit.sortKey ∧
      ((x.documents.map (·.id)).Nodup → x.rank tallies order = x.rank tallies order') := by
  have h := x.best_ranked tallies order
  have h' := x.best_ranked tallies order'
  refine ⟨?_, fun hids => ?_⟩
  · rw [rank_eq, rank_eq, List.map_take, List.map_take, h.map_sortKey h']
  · rw [rank_eq, rank_eq, h.eq h' (hids.sublist (ids_zipWith_sublist x.documents tallies))]

/-- A query with terms is answered by the best hits of all documents, and by the first of them under a smaller limit. Another
    order of the hits does not show in scores and ids, and not at all where all documents have ids of their own. -/
theorem search_ranks (x : Index) {query : String} (hquery : queryTerms query ≠ []) :
    (x.tallies query).length = x.documents.length ∧
      ∀ order, ∃ results, x.search query order = .ok results ∧ Ranks x.profile.limit (x.hits query) results ∧
        ∀ limit ≤ x.profile.limit, ∀ order', ∃ fewer, (x.limited limit).search query order' = .ok fewer ∧
          fewer.map Hit.sortKey <+: results.map Hit.sortKey ∧
          (order' = order ∨ (x.documents.map (·.id)).Nodup → fewer <+: results) := by
  have hsearch (y : Index) (order : List ℕ) : y.search query order = .ok (y.rank (y.tallies query) order) :=
    if_neg (by simpa using hquery)
  refine ⟨x.length_tallies query, fun order => ⟨_, hsearch x order, x.ranks_rank _ _, fun limit hlimit order' =>
    ⟨_, hsearch _ _, ?_⟩⟩⟩
  have hfewer (order : List ℕ) : (x.limited limit).rank (x.tallies query) order <+: x.rank (x.tallies query) order :=
    List.take_prefix_take_left hlimit
  obtain ⟨hkeys, hids⟩ := x.rank_order (x.tallies query) order' order
  rw [tallies_limited]
  constructor
  · rw [← hkeys]
    exact (hfewer order').map _
  · rintro (rfl | hnodup)
    · exact hfewer order'
    · rw [← hids hnodup]
      exact hfewer order'

/-- Two documents of one entity, and a third of the same name. -/
def namesakes : Index := .ofDocuments
  [{ id := "n:p", kind := .pin, node := some "n", name := "Log", pinName := some "log" },
    { id := "n:q", kind := .pin, node := some "n", name := "Log", pinName := some "log" },
    { id := "m", kind := .node, node := some "m", name := "Log" }] .board

/-- A search for the name, at most one result for each of the two entities, whichever document is met first. -/
theorem search_ranks_namesakes : queryTerms "log" ≠ [] ∧
    ∃ results, namesakes.search "log" [2, 0] = .ok results ∧ Ranks 100 (namesakes.hits "log") results ∧
      results.length ≤ 2 := by
  have hquery : queryTerms "log" ≠ [] := by decide +kernel
  obtain ⟨-, hsearches⟩ := namesakes.search_ranks hquery
  obtain ⟨results, hsearch, hranks, -⟩ := hsearches [2, 0]
  refine ⟨hquery, results, hsearch, hranks, ?_⟩
  have hhits : (namesakes.hits "log").map (·.document.entity) =
      [⟨.pin, "n", some "log"⟩, ⟨.pin, "n", some "log"⟩, ⟨.node, "m", none⟩] := rfl
  have hentities : results.map (·.document.entity) ⊆ [⟨.pin, "n", some "log"⟩, ⟨.node, "m", none⟩] := by
    intro e he
    obtain ⟨r, hr, rfl⟩ := List.mem_map.mp he
    have hmem := List.mem_map_of_mem (f := (·.document.entity)) (hranks.mem r hr)
    rw [hhits] at hmem
    simpa using hmem
  have hlength := (hranks.distinct.subperm hentities).length_le
  rwa [List.length_map] at hlength

end Index

end Workboard.Search
