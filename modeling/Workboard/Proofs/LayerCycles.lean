import Mathlib
import Workboard.Board.Forest
import Workboard.Proofs.Sound

/-! Layers inside each other: what is reported as a cycle, and what a path fails on.

The report finds what is inside a layer by rounds (`mem_layersWithin`), a path climbs from parent to parent and keeps the
layers that it has passed (`Ascends`). Both come down to the cycles of one relation, that a layer is directly inside another
(`Board.IsCycle`): a layer has one parent at most, so a cycle is told by any of its layers (`mem_cycle_iff`). Main statement:
the report lists just the sets of layers of a cycle, and a path fails on a cycle just where a set of the report says so, up
to the depth of a climb (`Board.layerCycles_exact`). The report is also what the strongly connected components of the
layers give (`Board.cyclesOf`), whatever finds those (`Board.Components`). -/

namespace Workboard

open Relation (TransGen ReflTransGen)

/-! ### Cycles of a relation

Where nothing is related to two things, a cycle is told by any of its members: its members are those that the member comes
to and that come to it. -/

section
variable {α : Type} {r : α → α → Prop} {a x y : α} {c : Cycle α}

/-- Each comes to the other. -/
def Mutual (r : α → α → Prop) (x y : α) : Prop := TransGen r x y ∧ TransGen r y x

theorem Mutual.symm (h : Mutual r x y) : Mutual r y x := ⟨h.2, h.1⟩

theorem Mutual.trans {z : α} (h : Mutual r x y) (h' : Mutual r y z) : Mutual r x z := ⟨h.1.trans h'.1, h'.2.trans h.2⟩

/-- A cycle may begin at any of its members. -/
theorem exists_cons_of_mem_cycle (h : a ∈ c) : ∃ l : List α, c = ↑(a :: l) := by
  induction c using Quotient.inductionOn with
  | h l =>
    obtain ⟨s, t, rfl⟩ := List.append_of_mem (Cycle.mem_coe_iff.mp h)
    exact ⟨t ++ s, Cycle.coe_eq_coe.mpr List.isRotated_append⟩

theorem exists_mem_of_cycle_ne_nil (h : c ≠ .nil) : ∃ x, x ∈ c := by
  induction c using Quotient.inductionOn with
  | h l =>
    cases l with
    | nil => exact absurd rfl h
    | cons x l => exact ⟨x, Cycle.mem_coe_iff.mpr List.mem_cons_self⟩

theorem mutual_of_mem_cycle (hc : c.Chain r) (hx : x ∈ c) (hy : y ∈ c) : Mutual r x y := by
  have hall := Cycle.chain_iff_pairwise.mp (hc.imp fun _ _ h => TransGen.single h)
  exact ⟨hall x hx y hy, hall y hy x hx⟩

theorem mem_cycle_of_transGen (hr : Relator.RightUnique r) (hc : c.Chain r) (ha : a ∈ c) (h : TransGen r a x) :
    x ∈ c := by
  have hstep {a x : α} (ha : a ∈ c) (hx : r a x) : x ∈ c := by
    obtain ⟨l, rfl⟩ := exists_cons_of_mem_cycle ha
    rw [Cycle.chain_coe_cons] at hc
    cases l with
    | nil => exact hr (List.isChain_cons_cons.mp hc).1 hx ▸ ha
    | cons b l => exact hr (List.isChain_cons_cons.mp hc).1 hx ▸ Cycle.mem_coe_iff.mpr (by simp)
  induction h with
  | single h => exact hstep ha h
  | tail _ h ih => exact hstep ih h

theorem mem_cycle_iff (hr : Relator.RightUnique r) (hc : c.Chain r) (ha : a ∈ c) : x ∈ c ↔ Mutual r a x :=
  ⟨mutual_of_mem_cycle hc ha, fun h => mem_cycle_of_transGen hr hc ha h.1⟩

section
variable {f : α → α} (hf : ∀ x y, r x y → f x = y)
include hf

theorem iterate_of_transGen (h : TransGen r a x) : ∃ n > 0, f^[n] a = x := by
  induction h with
  | single h => exact ⟨1, Nat.one_pos, hf _ _ h⟩
  | tail _ h ih =>
    obtain ⟨n, -, rfl⟩ := ih
    exact ⟨n + 1, n.succ_pos, by rw [Function.iterate_succ_apply', hf _ _ h]⟩

/-- What comes back to itself goes on to what comes back to itself. -/
theorem rel_of_transGen (h : TransGen r a a) : r a (f a) ∧ TransGen r (f a) (f a) := by
  obtain ⟨x, hx, hback⟩ := TransGen.head'_iff.mp h
  rw [hf _ _ hx]
  exact ⟨hx, TransGen.tail' hback hx⟩

theorem transGen_iterate (h : TransGen r a a) (n : ℕ) : TransGen r (f^[n] a) (f^[n] a) := by
  induction n with
  | zero => exact h
  | succ n ih =>
    rw [Function.iterate_succ_apply']
    exact (rel_of_transGen hf ih).2

/-- What comes back to itself is on a cycle: its orbit under the function that tells what it is related to. -/
theorem exists_cycle (h : TransGen r a a) : ∃ c : Cycle α, c.Nodup ∧ c.Chain r ∧ a ∈ c := by
  obtain ⟨n, hn, hback⟩ := iterate_of_transGen hf h
  have hperiodic : a ∈ Function.periodicPts f := ⟨n, hn, hback⟩
  refine ⟨Function.periodicOrbit f a, Function.nodup_periodicOrbit, (Function.periodicOrbit_chain r).mpr fun k _ => ?_,
    (Function.mem_periodicOrbit_iff hperiodic).mpr ⟨0, rfl⟩⟩
  rw [Function.iterate_succ_apply']
  exact (rel_of_transGen hf (transGen_iterate hf h k)).1

end

/-- A list without repetition, sorted, ascends. -/
theorem sortedLT_mergeSort {l : List α} [LinearOrder α] (h : l.Nodup) : (l.mergeSort (· ≤ ·)).SortedLT :=
  List.sortedLE_mergeSort.sortedLT_of_nodup (List.nodup_mergeSort.mpr h)

end

namespace Board

variable {b : Board} {id x y : String}

/-! ### Layers inside each other -/

/-- The layer that a layer is directly inside, or itself if it is in none. -/
def around (b : Board) (id : String) : String := ((b.layers.get? id).bind (·.parent)).getD id

theorem Inside.around_eq (h : b.Inside x y) : b.around x = y := by
  obtain ⟨l, hl, hparent⟩ := h
  unfold around
  rw [hl, Option.bind_some, hparent, Option.getD_some]

theorem rightUnique_inside (b : Board) : Relator.RightUnique b.Inside :=
  fun _ _ _ hy hz => hy.around_eq.symm.trans hz.around_eq

theorem Inside.contains (h : b.Inside x y) : b.layers.contains x = true := by
  obtain ⟨l, hl, -⟩ := h
  exact KeyMap.contains_iff.mpr ⟨l, hl⟩

theorem contains_of_transGen (h : TransGen b.Inside x y) : b.layers.contains x = true := by
  obtain ⟨z, hz, -⟩ := TransGen.head'_iff.mp h
  exact hz.contains

theorem mem_innerLayers (h : b.layers.Keyed Layer.id) :
    x ∈ b.innerLayers y ↔ b.layers.contains y = true ∧ b.Inside x y := by
  unfold innerLayers
  cases hy : b.layers.contains y with
  | false => simp
  | true =>
    rw [if_pos rfl, List.mem_mergeSort, List.mem_map]
    constructor
    · rintro ⟨l, hl, rfl⟩
      obtain ⟨hl, hparent⟩ := List.mem_filter.mp hl
      obtain ⟨k, hk⟩ := KeyMap.mem_values.mp hl
      obtain rfl := h k l hk
      exact ⟨rfl, l, hk, by simpa using (Bool.and_eq_true_iff.mp hparent).1⟩
    · rintro ⟨-, l, hl, hparent⟩
      refine ⟨l, List.mem_filter.mpr ⟨KeyMap.mem_values.mpr ⟨x, hl⟩, ?_⟩, h x l hl⟩
      rw [h x l hl, KeyMap.contains_iff.mpr ⟨l, hl⟩]
      simpa using hparent

/-- What a round finds. -/
theorem mem_found {reached last : List String} : x ∈ ((last.flatMap b.innerLayers).filter (· ∉ reached)).eraseDups ↔
    x ∉ reached ∧ ∃ y ∈ last, x ∈ b.innerLayers y := by
  rw [List.mem_eraseDups, List.mem_filter, List.mem_flatMap, and_comm, decide_eq_true_eq]

/-- What is reached from a layer is inside it, at some depth. -/
theorem transGen_of_mem_reachFrom (h : b.layers.Keyed Layer.id) {fuel : Nat} {reached last : List String}
    (hreached : ∀ y ∈ reached, TransGen b.Inside y id) (hlast : ∀ y ∈ last, ReflTransGen b.Inside y id)
    (hx : x ∈ b.reachFrom fuel reached last) : TransGen b.Inside x id := by
  induction fuel generalizing reached last with
  | zero => exact hreached x hx
  | succ fuel ih =>
    have hnew : ∀ y ∈ ((last.flatMap b.innerLayers).filter (· ∉ reached)).eraseDups, TransGen b.Inside y id := by
      intro y hy
      obtain ⟨-, z, hz, hy⟩ := mem_found.mp hy
      exact TransGen.head' ((mem_innerLayers h).mp hy).2 (hlast z hz)
    rw [reachFrom] at hx
    split at hx
    · exact hreached x hx
    · refine ih (fun y hy => ?_) (fun y hy => (hnew y hy).to_reflTransGen) hx
      rcases List.mem_append.mp hy with hy | hy
      · exact hreached y hy
      · exact hnew y hy

/-- A list that has the inner layers of a layer and of its own members has all that is inside the layer. -/
theorem mem_of_closed (h : b.layers.Keyed Layer.id) (hid : b.layers.contains id = true) {reached : List String}
    (hclosed : ∀ y ∈ id :: reached, ∀ z ∈ b.innerLayers y, z ∈ reached) (hx : TransGen b.Inside x id) :
    x ∈ reached := by
  induction hx using TransGen.head_induction_on with
  | single hy => exact hclosed id List.mem_cons_self _ ((mem_innerLayers h).mpr ⟨hid, hy⟩)
  | head hxy hy ih =>
    exact hclosed _ (List.mem_cons_of_mem id ih) _ ((mem_innerLayers h).mpr ⟨contains_of_transGen hy, hxy⟩)

/-- Where as many layers are reached as the board has, all are. -/
theorem mem_of_card {reached : List String} (hreached : ∀ y ∈ reached, b.layers.contains y = true)
    (hall : b.layers.size ≤ reached.toFinset.card) (hx : b.layers.contains x = true) : x ∈ reached := by
  have hsub : reached.toFinset ⊆ b.layers.keys.toFinset := fun y hy =>
    List.mem_toFinset.mpr (KeyMap.mem_keys.mpr (hreached y (List.mem_toFinset.mp hy)))
  have hsize : b.layers.keys.toFinset.card ≤ b.layers.size :=
    (List.toFinset_card_le _).trans (List.length_map _).le
  have hsame := Finset.eq_of_subset_of_card_le hsub (hsize.trans hall)
  exact List.mem_toFinset.mp (hsame ▸ List.mem_toFinset.mpr (KeyMap.mem_keys.mpr hx))

/-- What is inside a layer is reached. Every round that finds something new adds a layer of the board, so there are rounds
    enough; after a round that does not, the inner layers of all that was reached are reached. -/
theorem mem_reachFrom_of_transGen (h : b.layers.Keyed Layer.id) (hid : b.layers.contains id = true) {fuel : Nat}
    {reached last : List String} (hreached : ∀ y ∈ reached, b.layers.contains y = true)
    (hrounds : b.layers.size ≤ fuel + reached.toFinset.card)
    (hclosed : ∀ y ∈ id :: reached, y ∉ last → ∀ z ∈ b.innerLayers y, z ∈ reached)
    (hx : TransGen b.Inside x id) : x ∈ b.reachFrom fuel reached last := by
  induction fuel generalizing reached last with
  | zero =>
    rw [reachFrom]
    -- By now all layers of the board are reached.
    exact mem_of_card hreached (by omega) (contains_of_transGen hx)
  | succ fuel ih =>
    have hfound (z : String) : z ∈ ((last.flatMap b.innerLayers).filter (· ∉ reached)).eraseDups ↔
        z ∉ reached ∧ ∃ y ∈ last, z ∈ b.innerLayers y := mem_found
    rw [reachFrom]
    split
    · rename_i hnone
      rw [hnone] at hfound
      refine mem_of_closed h hid (fun y hy z hz => ?_) hx
      by_cases hlast : y ∈ last
      · by_contra hnot
        exact absurd ((hfound z).mpr ⟨hnot, y, hlast, hz⟩) List.not_mem_nil
      · exact hclosed y hy hlast z hz
    · rename_i hsome
      generalize ((last.flatMap b.innerLayers).filter (· ∉ reached)).eraseDups = new at hfound hsome ⊢
      refine ih (fun y hy => ?_) ?_ fun y hy hnot z hz => ?_
      · rcases List.mem_append.mp hy with hy | hy
        · exact hreached y hy
        · obtain ⟨-, w, -, hw⟩ := (hfound y).mp hy
          exact ((mem_innerLayers h).mp hw).2.contains
      -- The round pays for itself by a layer not reached before.
      · obtain ⟨z, hz⟩ := List.exists_mem_of_ne_nil new hsome
        have hmore : reached.toFinset ⊂ (reached ++ new).toFinset := by
          rw [List.toFinset_append, Finset.ssubset_iff]
          refine ⟨z, fun hold => ((hfound z).mp hz).1 (List.mem_toFinset.mp hold), ?_⟩
          exact Finset.insert_subset (Finset.mem_union_right _ (List.mem_toFinset.mpr hz)) Finset.subset_union_left
        have hcard := Finset.card_lt_card hmore
        omega
      · have hold : y ∈ id :: reached := by
          rcases List.mem_cons.mp hy with rfl | hy
          · exact List.mem_cons_self
          · exact List.mem_cons_of_mem id ((List.mem_append.mp hy).resolve_right hnot)
        rw [List.mem_append, or_iff_not_imp_left]
        intro hz'
        by_cases hlast : y ∈ last
        · exact (hfound z).mpr ⟨hz', y, hlast, hz⟩
        · exact absurd (hclosed y hold hlast z hz) hz'

theorem mem_layersWithin (h : b.layers.Keyed Layer.id) (hid : b.layers.contains id = true) :
    x ∈ b.layersWithin id ↔ TransGen b.Inside x id := by
  constructor
  · refine transGen_of_mem_reachFrom h (fun y hy => absurd hy List.not_mem_nil) fun y hy => ?_
    obtain rfl := List.mem_singleton.mp hy
    exact .refl
  · refine mem_reachFrom_of_transGen h hid (fun y hy => absurd hy List.not_mem_nil) (by simp) fun y hy hnot => ?_
    exact absurd hy hnot

/-! ### The report -/

/-- Layers each of which is directly inside the next one, the last inside the first. -/
structure IsCycle (b : Board) (c : Cycle String) : Prop where
  nonempty : c ≠ .nil
  nodup : c.Nodup
  chain : c.Chain b.Inside

/-- The layers that are on a cycle with a layer, ascending. -/
def loopOf (b : Board) (id : String) : List String :=
  b.layers.keys.filter fun other => other ∈ b.layersWithin id && id ∈ b.layersWithin other

theorem layerCycles_eq (b : Board) : b.layerCycles =
    b.layers.keys.filterMap fun id => if (b.loopOf id).head? = some id then some (b.loopOf id) else none := by
  have hloop (id : String) : (((b.layers.keys.map fun id => (id, b.layersWithin id)).filter fun e =>
      e.1 ∈ b.layersWithin id && id ∈ e.2).map (·.1)) = b.loopOf id := by
    unfold loopOf
    rw [List.filter_map, List.map_map]
    exact List.map_id _
  unfold layerCycles nesting
  dsimp only
  rw [List.filterMap_map]
  refine List.filterMap_congr fun id _ => ?_
  simp only [Function.comp_apply, hloop]
  cases b.loopOf id with
  | nil => rfl
  | cons first rest => simp

theorem mem_layerCycles {ids : List String} :
    ids ∈ b.layerCycles ↔ ∃ id ∈ b.layers.keys, b.loopOf id = ids ∧ ids.head? = some id := by
  rw [layerCycles_eq, List.mem_filterMap]
  refine exists_congr fun id => and_congr_right fun _ => ?_
  split
  · rename_i hhead
    rw [Option.some.injEq]
    exact ⟨fun h => ⟨h, h ▸ hhead⟩, fun h => h.1⟩
  · rename_i hhead
    exact ⟨fun h => (by cases h), fun ⟨h, hids⟩ => absurd (h ▸ hids) hhead⟩

theorem sortedLT_keys (m : KeyMap Layer) : m.keys.SortedLT := (List.pairwise_map.mpr m.ordered).sortedLT

theorem sortedLT_loopOf (b : Board) (id : String) : (b.loopOf id).SortedLT :=
  ((sortedLT_keys b.layers).pairwise.filter _).sortedLT

theorem mem_loopOf (h : b.layers.Keyed Layer.id) (hid : b.layers.contains id = true) :
    x ∈ b.loopOf id ↔ Mutual b.Inside id x := by
  unfold loopOf
  rw [List.mem_filter, Bool.and_eq_true, decide_eq_true_eq, decide_eq_true_eq, mem_layersWithin h hid]
  constructor
  · rintro ⟨hx, hin, hout⟩
    exact ⟨(mem_layersWithin h (KeyMap.mem_keys.mp hx)).mp hout, hin⟩
  · rintro ⟨hout, hin⟩
    have hx := contains_of_transGen hin
    exact ⟨KeyMap.mem_keys.mpr hx, hin, (mem_layersWithin h hx).mpr hout⟩

theorem loopOf_congr (h : b.layers.Keyed Layer.id) (hxy : Mutual b.Inside x y) : b.loopOf x = b.loopOf y := by
  refine (sortedLT_loopOf b x).eq_of_mem_iff (sortedLT_loopOf b y) fun z => ?_
  rw [mem_loopOf h (contains_of_transGen hxy.1), mem_loopOf h (contains_of_transGen hxy.2)]
  exact ⟨hxy.symm.trans, hxy.trans⟩

/-- The report has just the sets of layers on a common cycle, each ascending. -/
theorem mem_layerCycles_iff (h : b.layers.Keyed Layer.id) {ids : List String} :
    ids ∈ b.layerCycles ↔ ids.SortedLT ∧ ∃ c, b.IsCycle c ∧ ∀ x, x ∈ c ↔ x ∈ ids := by
  rw [mem_layerCycles]
  constructor
  · rintro ⟨id, hid, rfl, hhead⟩
    have hid := KeyMap.mem_keys.mp hid
    have hself : Mutual b.Inside id id := (mem_loopOf h hid).mp (List.mem_of_mem_head? hhead)
    obtain ⟨c, hnodup, hchain, hmem⟩ := exists_cycle (r := b.Inside) (fun _ _ h => h.around_eq) hself.1
    refine ⟨sortedLT_loopOf b id, c, ⟨?_, hnodup, hchain⟩, fun x => ?_⟩
    · rintro rfl
      exact Cycle.notMem_nil id hmem
    · rw [mem_loopOf h hid, mem_cycle_iff (rightUnique_inside b) hchain hmem]
  · rintro ⟨hsorted, c, hc, hmem⟩
    cases ids with
    | nil =>
      obtain ⟨x, hx⟩ := exists_mem_of_cycle_ne_nil hc.nonempty
      exact absurd ((hmem x).mp hx) List.not_mem_nil
    | cons id rest =>
      have hid : id ∈ c := (hmem id).mpr List.mem_cons_self
      have hcontains : b.layers.contains id = true := contains_of_transGen (mutual_of_mem_cycle hc.chain hid hid).1
      refine ⟨id, KeyMap.mem_keys.mpr hcontains, (sortedLT_loopOf b id).eq_of_mem_iff hsorted fun x => ?_, rfl⟩
      rw [mem_loopOf h hcontains, ← mem_cycle_iff (rightUnique_inside b) hc.chain hid]
      exact hmem x

/-- The sets of the report have no layer in common, and ascend. -/
theorem pairwise_layerCycles (h : b.layers.Keyed Layer.id) :
    b.layerCycles.Pairwise fun ids ids' => ids < ids' ∧ ids.Disjoint ids' := by
  rw [layerCycles_eq, List.pairwise_filterMap]
  refine (sortedLT_keys b.layers).pairwise.imp_of_mem fun {id id'} hid hid' hlt ids hids ids' hids' => ?_
  obtain ⟨hhead, hids⟩ := Option.ite_some_none_eq_some.mp hids
  obtain ⟨hhead', hids'⟩ := Option.ite_some_none_eq_some.mp hids'
  obtain ⟨rest, hrest⟩ := List.head?_eq_some_iff.mp hhead
  obtain ⟨rest', hrest'⟩ := List.head?_eq_some_iff.mp hhead'
  subst hids hids'
  refine ⟨by rw [hrest, hrest', List.cons_lt_cons_iff]; exact Or.inl hlt, fun x hx hx' => ?_⟩
  have hsame : b.loopOf id = b.loopOf id' := loopOf_congr h
    (((mem_loopOf h (KeyMap.mem_keys.mp hid)).mp hx).trans ((mem_loopOf h (KeyMap.mem_keys.mp hid')).mp hx').symm)
  rw [hsame, hhead'] at hhead
  exact String.lt_irrefl _ (Option.some.inj hhead ▸ hlt)

/-! ### Climbing -/

/-- The rungs of a climb, last first, with the layer that it goes on from in front: each is the parent of the one behind
    it. -/
def Ascends (b : Board) (next : Option String) (rungs : List Rung) : Prop :=
  (next.toList ++ rungs.map (·.id)).IsChain fun parent layer => b.Inside layer parent

/-- The layers from which a climb came back are a cycle. -/
theorem isCycle_cycleFrom {rungs : List Rung} (hchain : b.Ascends (some id) rungs) (hnodup : (rungs.map (·.id)).Nodup)
    (hback : id ∈ rungs.map (·.id)) : b.IsCycle (cycleFrom id rungs) := by
  unfold Ascends at hchain
  unfold cycleFrom
  generalize rungs.map (·.id) = ids at hchain hnodup hback ⊢
  obtain ⟨pre, post, rfl, hpre⟩ := List.eq_append_cons_of_mem hback
  have hnamed : (((pre ++ id :: post).takeWhile (· ≠ id)) ++ [id]).reverse = id :: pre.reverse := by
    have hother : ∀ x ∈ pre, decide (x ≠ id) = true := fun x hx => decide_eq_true (ne_of_mem_of_not_mem hx hpre)
    rw [List.takeWhile_append_of_pos hother, List.takeWhile_cons_of_neg (by simp), List.append_nil, List.reverse_append]
    rfl
  rw [hnamed]
  have hsplit : (some id).toList ++ (pre ++ id :: post) = (id :: (pre ++ [id])) ++ post := by simp
  rw [hsplit] at hchain
  refine ⟨by simp, ?_, ?_⟩
  · have hall : (pre ++ [id]).Nodup := (List.append_cons pre id post ▸ hnodup).of_append_left
    rw [Cycle.nodup_coe_iff, ← List.nodup_reverse]
    simpa using hall
  · have hclosed : (id :: (pre.reverse ++ [id])).IsChain b.Inside := by
      rw [← List.isChain_reverse]
      simpa using hchain.left_of_append
    exact (Cycle.chain_coe_cons _ _ _).mpr hclosed

/-- A climb that comes back to a layer names a cycle. -/
theorem isCycle_of_climbFrom {fuel : Nat} {rungs rungs' : List Rung} {next : Option String} {c : List String}
    (hchain : b.Ascends next rungs) (hnodup : (rungs.map (·.id)).Nodup)
    (h : climbFrom b.layers fuel rungs next = (rungs', some (.cycle c))) : b.IsCycle c := by
  fun_induction climbFrom b.layers fuel rungs next with
  | case1 => cases h
  | case2 => cases h
  | case3 fuel rungs id hback =>
    obtain rfl := ClimbFault.cycle.inj (Option.some.inj (Prod.mk.inj h).2)
    exact isCycle_cycleFrom hchain hnodup (by simpa [List.any_eq_true] using hback)
  | case4 => cases h
  | case5 => cases h
  | case6 fuel rungs id hnew hroom l hl ih =>
    refine ih ?_ ?_ h
    · unfold Ascends at hchain ⊢
      cases hparent : l.parent with
      | none => exact hchain
      | some parent => exact List.isChain_cons_cons.mpr ⟨⟨l, hl, hparent⟩, hchain⟩
    · exact List.nodup_cons.mpr ⟨by simpa [List.any_eq_true] using hnew, hnodup⟩

/-- A climb goes once around a cycle. The layers of the cycle are those that it has passed and those to come. -/
theorem climbFrom_of_chain (passed todo : List String) {first : String} {rungs : List Rung} {fuel : Nat}
    (hrungs : rungs.map (·.id) = passed.reverse) (hfirst : (passed ++ todo).head? = some first)
    (hnodup : (passed ++ todo).Nodup) (hchain : (todo ++ [first]).IsChain b.Inside)
    (hroom : (passed ++ todo).length ≤ maxLayerDepth) (hfuel : todo.length < fuel) :
    ∃ rungs', climbFrom b.layers fuel rungs (todo ++ [first]).head? = (rungs', some (.cycle (passed ++ todo))) := by
  induction todo generalizing passed rungs fuel with
  | nil =>
    obtain ⟨fuel, rfl⟩ := Nat.exists_eq_succ_of_ne_zero (Nat.ne_of_gt hfuel)
    rw [List.append_nil] at hfirst hnodup ⊢
    obtain ⟨rest, rfl⟩ := List.head?_eq_some_iff.mp hfirst
    -- The climb is around: the cycle is all that was passed.
    have hback : rungs.any (·.id = first) = true := by
      have hmem : first ∈ rungs.map (·.id) := by simp [hrungs]
      simpa [List.any_eq_true] using hmem
    have hcycle : cycleFrom first rungs = first :: rest := by
      have hother : ∀ x ∈ rest.reverse, decide (x ≠ first) = true := fun x hx =>
        decide_eq_true (ne_of_mem_of_not_mem (List.mem_reverse.mp hx) (List.nodup_cons.mp hnodup).1)
      unfold cycleFrom
      rw [hrungs, List.reverse_cons, List.takeWhile_append_of_pos hother, List.takeWhile_cons_of_neg (by simp)]
      simp
    refine ⟨rungs, ?_⟩
    show climbFrom b.layers (fuel + 1) rungs (some first) = _
    rw [climbFrom, if_pos hback, hcycle]
  | cons layer todo ih =>
    obtain ⟨fuel, rfl⟩ := Nat.exists_eq_succ_of_ne_zero (Nat.ne_of_gt (Nat.zero_lt_of_lt hfuel))
    -- The next layer of the cycle was not passed, and there is room for it.
    have hnew : ¬ rungs.any (·.id = layer) = true := by
      have hnot : layer ∉ rungs.map (·.id) := by
        rw [hrungs, List.mem_reverse]
        exact fun h => (List.nodup_append.mp hnodup).2.2 layer h layer List.mem_cons_self rfl
      simpa [List.any_eq_true] using hnot
    have hlength : rungs.length = passed.length := by
      rw [← List.length_map, hrungs, List.length_reverse]
    have hlow : ¬ maxLayerDepth ≤ rungs.length := by
      rw [List.length_append, List.length_cons] at hroom
      omega
    obtain ⟨parent, hparent⟩ : ∃ parent, (todo ++ [first]).head? = some parent := by
      cases todo <;> exact ⟨_, rfl⟩
    obtain ⟨rest, hrest⟩ := List.head?_eq_some_iff.mp hparent
    have hchain : (layer :: (todo ++ [first])).IsChain b.Inside := hchain
    obtain ⟨l, hl, hl'⟩ : b.Inside layer parent := by
      rw [hrest] at hchain
      exact (List.isChain_cons_cons.mp hchain).1
    have hrungs' : (⟨layer, l.name⟩ :: rungs : List Rung).map (·.id) = (passed ++ [layer]).reverse := by simp [hrungs]
    obtain ⟨rungs', hrun⟩ := ih (passed ++ [layer]) hrungs' (by simpa using hfirst) (by simpa using hnodup)
      (List.IsChain.of_cons hchain) (by simpa using hroom) (Nat.lt_of_succ_lt_succ hfuel)
    refine ⟨rungs', ?_⟩
    show climbFrom b.layers (fuel + 1) rungs (some layer) = _
    rw [climbFrom, if_neg hnew, if_neg hlow, hl]
    simpa [hl', hparent] using hrun

/-- A layer's climb that fails on a cycle. -/
theorem layerPath_eq_cycle {c : List String} :
    b.layerPath id = .error (.cycle c) ↔ ∃ rungs, b.climb id = (rungs, some (.cycle c)) := by
  unfold layerPath
  rcases b.climb id with ⟨rungs, _ | fault⟩ <;> simp

/-- A path that fails on a cycle names a cycle. -/
theorem isCycle_of_layerPath {c : List String} (h : b.layerPath id = .error (.cycle c)) : b.IsCycle c := by
  obtain ⟨rungs, h⟩ := layerPath_eq_cycle.mp h
  have hstart : b.Ascends (some id) [] := List.isChain_singleton id
  exact isCycle_of_climbFrom hstart List.nodup_nil h

/-- The path of a layer on a cycle that is not too long fails on that cycle. -/
theorem layerPath_of_isCycle {c : Cycle String} (hc : b.IsCycle c) (hroom : c.length ≤ maxLayerDepth) (hid : id ∈ c) :
    ∃ l : List String, c = l ∧ b.layerPath id = .error (.cycle l) := by
  obtain ⟨rest, rfl⟩ := exists_cons_of_mem_cycle hid
  refine ⟨id :: rest, rfl, layerPath_eq_cycle.mpr ?_⟩
  have hroom : (id :: rest).length ≤ maxLayerDepth := hroom
  have hchain := (Cycle.chain_coe_cons _ _ _).mp hc.chain
  exact climbFrom_of_chain [] (id :: rest) rfl rfl (Cycle.nodup_coe_iff.mp hc.nodup) hchain hroom (by omega)

/-- The cycle that a path fails on is reported. -/
theorem sorted_mem_layerCycles (h : b.layers.Keyed Layer.id) {l : List String} (hpath : b.layerPath id = .error (.cycle l)) :
    l.mergeSort (· ≤ ·) ∈ b.layerCycles := by
  have hc := isCycle_of_layerPath hpath
  refine (mem_layerCycles_iff h).mpr ⟨sortedLT_mergeSort (Cycle.nodup_coe_iff.mp hc.nodup), l, hc, fun x => ?_⟩
  rw [Cycle.mem_coe_iff, List.mem_mergeSort]

/-- The path of a layer in a reported set that is not too long fails on that set. -/
theorem layerPath_of_mem_layerCycles (h : b.layers.Keyed Layer.id) {ids : List String} (hids : ids ∈ b.layerCycles)
    (hroom : ids.length ≤ maxLayerDepth) (hid : id ∈ ids) :
    ∃ l, b.layerPath id = .error (.cycle l) ∧ l.mergeSort (· ≤ ·) = ids := by
  obtain ⟨hsorted, c, hc, hmem⟩ := (mem_layerCycles_iff h).mp hids
  obtain ⟨l, rfl⟩ := Quotient.exists_rep c
  have hnodup := Cycle.nodup_coe_iff.mp hc.nodup
  have hmem' (x : String) : x ∈ l ↔ x ∈ ids := Cycle.mem_coe_iff.symm.trans (hmem x)
  have hlength : l.length = ids.length :=
    ((List.perm_ext_iff_of_nodup hnodup hsorted.nodup).mpr hmem').length_eq
  obtain ⟨l', hl', hpath⟩ := layerPath_of_isCycle hc (hlength.trans_le hroom) ((hmem id).mpr hid)
  refine ⟨l', hpath, ?_⟩
  rw [hl'] at hc hmem
  refine (sortedLT_mergeSort (Cycle.nodup_coe_iff.mp hc.nodup)).eq_of_mem_iff hsorted fun x => ?_
  rw [List.mem_mergeSort, ← hmem x, Cycle.mem_coe_iff]

/-! ### Strongly connected components -/

/-- A layer is listed directly inside another. -/
def Lists (b : Board) (parent layer : String) : Prop := layer ∈ b.innerLayers parent

/-- The strongly connected components of the layers, each without repetition, in any order. -/
structure Components (b : Board) (components : List (List String)) : Prop where
  nonempty : ∀ c ∈ components, c ≠ []
  nodup : ∀ c ∈ components, c.Nodup
  disjoint : components.Pairwise List.Disjoint
  covers : ∀ x, b.layers.contains x = true → ∃ c ∈ components, x ∈ c
  connected : ∀ c ∈ components, ∀ x ∈ c, ∀ y,
    y ∈ c ↔ b.layers.contains y = true ∧ ReflTransGen b.Lists x y ∧ ReflTransGen b.Lists y x

/-- The report that is made of strongly connected components: those of several layers, or of one that is inside itself,
    each ascending, in ascending order. -/
def cyclesOf (b : Board) (components : List (List String)) : List (List String) :=
  ((components.filter fun c => 1 < c.length || c.head?.any fun id => id ∈ b.innerLayers id).map
    (·.mergeSort (· ≤ ·))).mergeSort (· ≤ ·)

theorem transGen_lists (h : b.layers.Keyed Layer.id) :
    TransGen b.Lists y x ↔ b.layers.contains y = true ∧ TransGen b.Inside x y := by
  constructor
  · intro hyx
    induction hyx with
    | single hx =>
      obtain ⟨hy, hx⟩ := (mem_innerLayers h).mp hx
      exact ⟨hy, .single hx⟩
    | tail _ hx ih => exact ⟨ih.1, TransGen.head ((mem_innerLayers h).mp hx).2 ih.2⟩
  · rintro ⟨hy, hxy⟩
    induction hxy using TransGen.head_induction_on with
    | single hx => exact .single ((mem_innerLayers h).mpr ⟨hy, hx⟩)
    | head hx hxy ih => exact ih.tail ((mem_innerLayers h).mpr ⟨contains_of_transGen hxy, hx⟩)

section
variable {components : List (List String)} {c : List String}

/-- Two layers of a component are inside each other. -/
theorem Components.mutual_of_ne (h : b.layers.Keyed Layer.id) (hc : b.Components components) (hmem : c ∈ components)
    (hx : x ∈ c) (hy : y ∈ c) (hne : x ≠ y) : Mutual b.Inside x y := by
  obtain ⟨-, hxy, hyx⟩ := (hc.connected c hmem x hx y).mp hy
  have hxy := (Relation.reflTransGen_iff_eq_or_transGen.mp hxy).resolve_left hne.symm
  have hyx := (Relation.reflTransGen_iff_eq_or_transGen.mp hyx).resolve_left hne
  exact ⟨((transGen_lists h).mp hyx).2, ((transGen_lists h).mp hxy).2⟩

/-- The component of a layer on a cycle is the cycle. -/
theorem Components.mem_iff_mutual (h : b.layers.Keyed Layer.id) (hc : b.Components components) (hmem : c ∈ components)
    (hx : x ∈ c) (hself : TransGen b.Inside x x) : y ∈ c ↔ Mutual b.Inside x y := by
  constructor
  · intro hy
    by_cases he : x = y
    · subst he
      exact ⟨hself, hself⟩
    · exact hc.mutual_of_ne h hmem hx hy he
  · rintro ⟨hxy, hyx⟩
    have hxy' := (transGen_lists h).mpr ⟨contains_of_transGen hxy, hyx⟩
    have hyx' := (transGen_lists h).mpr ⟨contains_of_transGen hyx, hxy⟩
    exact (hc.connected c hmem x hx y).mpr ⟨contains_of_transGen hyx, hxy'.to_reflTransGen, hyx'.to_reflTransGen⟩

/-- A component is reported exactly if it has a layer on a cycle. -/
theorem Components.reported_iff (h : b.layers.Keyed Layer.id) (hc : b.Components components) (hmem : c ∈ components) :
    (1 < c.length || c.head?.any fun id => id ∈ b.innerLayers id) = true ↔ ∃ x ∈ c, TransGen b.Inside x x := by
  rw [Bool.or_eq_true, decide_eq_true_eq]
  constructor
  · rintro (hlength | hself)
    · obtain ⟨x, y, rest, rfl⟩ : ∃ x y rest, c = x :: y :: rest := by
        match c, hlength with
        | x :: y :: rest, _ => exact ⟨x, y, rest, rfl⟩
      have hne : x ≠ y := fun he => (List.nodup_cons.mp (hc.nodup _ hmem)).1 (he ▸ List.mem_cons_self)
      have hxy := hc.mutual_of_ne h hmem List.mem_cons_self (List.mem_cons_of_mem x List.mem_cons_self) hne
      exact ⟨x, List.mem_cons_self, hxy.1.trans hxy.2⟩
    · obtain ⟨x, rest, rfl⟩ := List.exists_cons_of_ne_nil (hc.nonempty c hmem)
      exact ⟨x, List.mem_cons_self, .single ((mem_innerLayers h).mp (of_decide_eq_true hself)).2⟩
  · rintro ⟨x, hx, hself⟩
    refine or_iff_not_imp_left.mpr fun hshort => ?_
    -- The parent of the layer is on the cycle too, and so it is the layer itself.
    obtain ⟨z, hz, hback⟩ := TransGen.head'_iff.mp hself
    have hzc : z ∈ c := (hc.mem_iff_mutual h hmem hx hself).mpr ⟨.single hz, .trans_right hback hself⟩
    obtain ⟨w, rest, rfl⟩ := List.exists_cons_of_ne_nil (hc.nonempty c hmem)
    obtain rfl : rest = [] := List.eq_nil_of_length_eq_zero (by simpa using hshort)
    obtain rfl := List.mem_singleton.mp hx
    obtain rfl := List.mem_singleton.mp hzc
    exact decide_eq_true ((mem_innerLayers h).mpr ⟨hz.contains, hz⟩)

theorem Components.mergeSort_eq_loopOf (h : b.layers.Keyed Layer.id) (hc : b.Components components) (hmem : c ∈ components)
    (hx : x ∈ c) (hself : TransGen b.Inside x x) : c.mergeSort (· ≤ ·) = b.loopOf x := by
  refine (sortedLT_mergeSort (hc.nodup c hmem)).eq_of_mem_iff (sortedLT_loopOf b x) fun y => ?_
  rw [List.mem_mergeSort, hc.mem_iff_mutual h hmem hx hself, mem_loopOf h (contains_of_transGen hself)]

theorem loopOf_mem_layerCycles (h : b.layers.Keyed Layer.id) (hself : TransGen b.Inside x x) :
    b.loopOf x ∈ b.layerCycles := by
  have hx := contains_of_transGen hself
  obtain ⟨id, rest, hloop⟩ := List.exists_cons_of_ne_nil (List.ne_nil_of_mem ((mem_loopOf h hx).mpr ⟨hself, hself⟩))
  have hid : Mutual b.Inside x id := (mem_loopOf h hx).mp (hloop ▸ List.mem_cons_self)
  refine mem_layerCycles.mpr ⟨id, KeyMap.mem_keys.mpr (contains_of_transGen hid.2), (loopOf_congr h hid).symm, ?_⟩
  rw [hloop]
  rfl

theorem mem_cyclesOf (h : b.layers.Keyed Layer.id) (hc : b.Components components) {ids : List String} :
    ids ∈ b.cyclesOf components ↔ ids ∈ b.layerCycles := by
  unfold cyclesOf
  rw [List.mem_mergeSort, List.mem_map]
  constructor
  · rintro ⟨c, hmem, rfl⟩
    obtain ⟨hmem, hreported⟩ := List.mem_filter.mp hmem
    obtain ⟨x, hx, hself⟩ := (hc.reported_iff h hmem).mp hreported
    rw [hc.mergeSort_eq_loopOf h hmem hx hself]
    exact loopOf_mem_layerCycles h hself
  · intro hids
    obtain ⟨id, hid, rfl, hhead⟩ := mem_layerCycles.mp hids
    have hid := KeyMap.mem_keys.mp hid
    have hself := ((mem_loopOf h hid).mp (List.mem_of_mem_head? hhead)).1
    obtain ⟨c, hmem, hx⟩ := hc.covers id hid
    exact ⟨c, List.mem_filter.mpr ⟨hmem, (hc.reported_iff h hmem).mpr ⟨id, hx, hself⟩⟩,
      hc.mergeSort_eq_loopOf h hmem hx hself⟩

/-- Components have no layer in common, so no set is reported twice. -/
theorem sortedLT_cyclesOf (hc : b.Components components) : (b.cyclesOf components).SortedLT := by
  refine sortedLT_mergeSort (List.pairwise_map.mpr ((hc.disjoint.filter _).imp_of_mem fun {c d} hmem _ hdisjoint he => ?_))
  obtain ⟨x, hx⟩ := List.exists_mem_of_ne_nil c (hc.nonempty c (List.mem_filter.mp hmem).1)
  exact hdisjoint hx (List.mem_mergeSort.mp (he ▸ List.mem_mergeSort.mpr hx))

/-- The report is that of strongly connected components. -/
theorem cyclesOf_eq (h : b.layers.Keyed Layer.id) (hc : b.Components components) :
    b.cyclesOf components = b.layerCycles := by
  have hreport : b.layerCycles.SortedLT := ((pairwise_layerCycles h).imp And.left).sortedLT
  exact (sortedLT_cyclesOf hc).eq_of_mem_iff hreport fun _ => mem_cyclesOf h hc

end

/-- The report and the paths agree. The report lists just the sets of layers on a common cycle, each ascending, in
    ascending order, and no two have a layer in common. The cycle that a path fails on is one of them, and the path of
    every layer in one that is not too long fails on just that one. The components of the layers, found by any means,
    give the same report. -/
theorem layerCycles_exact (h : b.layers.Keyed Layer.id) :
    (∀ ids, ids ∈ b.layerCycles ↔ ids.SortedLT ∧ ∃ c, b.IsCycle c ∧ ∀ x, x ∈ c ↔ x ∈ ids) ∧
      b.layerCycles.Pairwise (fun ids ids' => ids < ids' ∧ ids.Disjoint ids') ∧
      (∀ id l, b.layerPath id = .error (.cycle l) → b.IsCycle l ∧ l.mergeSort (· ≤ ·) ∈ b.layerCycles) ∧
      (∀ ids ∈ b.layerCycles, ids.length ≤ maxLayerDepth → ∀ id ∈ ids,
        ∃ l, b.layerPath id = .error (.cycle l) ∧ l.mergeSort (· ≤ ·) = ids) ∧
      ∀ components, b.Components components → b.cyclesOf components = b.layerCycles :=
  ⟨fun _ => mem_layerCycles_iff h, pairwise_layerCycles h,
    fun _ _ hpath => ⟨isCycle_of_layerPath hpath, sorted_mem_layerCycles h hpath⟩,
    fun _ hids hroom _ hid => layerPath_of_mem_layerCycles h hids hroom hid, fun _ hc => cyclesOf_eq h hc⟩

/-- Two layers inside each other, one inside those, one inside itself and one inside a layer that is missing. -/
def tangledBoard : Board :=
  let layer (id : String) (parent : Option String) : Layer := ⟨id, id, none, parent, ∅, ∅, .origin, none⟩
  { blank "b" "board" with
    layers := .ofList [("a", layer "a" (some "b")), ("b", layer "b" (some "a")), ("c", layer "c" (some "a")),
      ("d", layer "d" (some "d")), ("e", layer "e" (some "gone"))] }

theorem contains_tangledBoard : tangledBoard.layers.contains x = true ↔ x ∈ ["a", "b", "c", "d", "e"] := by
  have hkeys : tangledBoard.layers.keys = ["a", "b", "c", "d", "e"] := rfl
  rw [← KeyMap.mem_keys, hkeys]

theorem eq_of_lists_tangledBoard (hx : x ∈ ["c", "d", "e"]) (hy : ReflTransGen tangledBoard.Lists x y) : y = x := by
  have hc : tangledBoard.innerLayers "c" = [] := by cbv
  have hd : tangledBoard.innerLayers "d" = ["d"] := by cbv
  have he : tangledBoard.innerLayers "e" = [] := by cbv
  have hinner : ∀ z ∈ ["c", "d", "e"], ∀ w ∈ tangledBoard.innerLayers z, w = z := by simp [hc, hd, he]
  induction hy with
  | refl => rfl
  | tail _ hy ih => exact hinner x hx _ (ih ▸ hy)

theorem lists_tangledBoard (hx : x ∈ ["b", "a"]) (hy : y ∈ ["b", "a"]) : ReflTransGen tangledBoard.Lists x y := by
  have hab : tangledBoard.innerLayers "a" = ["b", "c"] := by cbv
  have hba : tangledBoard.innerLayers "b" = ["a"] := by cbv
  have hab : tangledBoard.Lists "a" "b" := by simp [Lists, hab]
  have hba : tangledBoard.Lists "b" "a" := by simp [Lists, hba]
  simp only [List.mem_cons, List.not_mem_nil, or_false] at hx hy
  rcases hx with rfl | rfl <;> rcases hy with rfl | rfl
  exacts [.refl, .single hba, .single hab, .refl]

/-- Only the two layers inside each other have a component of several. -/
theorem components_tangledBoard : tangledBoard.Components [["c"], ["b", "a"], ["d"], ["e"]] where
  nonempty := by decide
  nodup := by decide
  disjoint := by simp
  covers x hx := by
    simpa [or_comm, or_left_comm] using contains_tangledBoard.mp hx
  connected c hc x hx y := by
    have hsingle {z : String} (hz : z ∈ ["c", "d", "e"]) (hx : x ∈ [z]) :
        y ∈ [z] ↔ y ∈ ["a", "b", "c", "d", "e"] ∧ ReflTransGen tangledBoard.Lists x y ∧
          ReflTransGen tangledBoard.Lists y x := by
      obtain rfl := List.mem_singleton.mp hx
      refine ⟨fun hy => ?_, fun h => List.mem_singleton.mpr (eq_of_lists_tangledBoard hz h.2.1)⟩
      obtain rfl := List.mem_singleton.mp hy
      exact ⟨List.mem_cons_of_mem _ (List.mem_cons_of_mem _ hz), .refl, .refl⟩
    have hpair (hx : x ∈ ["b", "a"]) :
        y ∈ ["b", "a"] ↔ y ∈ ["a", "b", "c", "d", "e"] ∧ ReflTransGen tangledBoard.Lists x y ∧
          ReflTransGen tangledBoard.Lists y x := by
      refine ⟨fun hy => ⟨List.mem_append_left ["c", "d", "e"] (List.mem_reverse.mpr hy), lists_tangledBoard hx hy,
        lists_tangledBoard hy hx⟩, ?_⟩
      rintro ⟨hy, -, hyx⟩
      rcases List.mem_append.mp (show y ∈ ["a", "b"] ++ ["c", "d", "e"] from hy) with hy | hy
      · exact List.mem_reverse.mpr hy
      · obtain rfl := eq_of_lists_tangledBoard hy hyx
        exact hx
    rw [contains_tangledBoard]
    simp only [List.mem_cons, List.not_mem_nil, or_false] at hc
    rcases hc with rfl | rfl | rfl | rfl
    exacts [hsingle (by simp) hx, hpair hx, hsingle (by simp) hx, hsingle (by simp) hx]

/-- The report of a board, its paths and its components. -/
theorem layerCycles_exact_tangled :
    tangledBoard.layers.Keyed Layer.id ∧ tangledBoard.layerCycles = [["a", "b"], ["d"]] ∧
      (∃ c, tangledBoard.IsCycle c ∧ ∀ x, x ∈ c ↔ x ∈ ["a", "b"]) ∧
      tangledBoard.layerPath "c" = .error (.cycle ["a", "b"]) ∧
      ["a", "b"].mergeSort (· ≤ ·) ∈ tangledBoard.layerCycles ∧
      (∃ l, tangledBoard.layerPath "b" = .error (.cycle l) ∧ l.mergeSort (· ≤ ·) = ["a", "b"]) ∧
      tangledBoard.Components [["c"], ["b", "a"], ["d"], ["e"]] ∧
      tangledBoard.cyclesOf [["c"], ["b", "a"], ["d"], ["e"]] = tangledBoard.layerCycles := by
  have hkeyed : tangledBoard.layers.Keyed Layer.id := by decide +kernel
  have hreport : tangledBoard.layerCycles = [["a", "b"], ["d"]] := by cbv
  have hpath : tangledBoard.layerPath "c" = .error (.cycle ["a", "b"]) := by decide +kernel
  obtain ⟨hiff, -, hnamed, hmember, hcomponents⟩ := layerCycles_exact hkeyed
  have hfirst : ["a", "b"] ∈ tangledBoard.layerCycles := by simp [hreport]
  exact ⟨hkeyed, hreport, ((hiff _).mp hfirst).2, hpath, (hnamed "c" _ hpath).2,
    hmember _ hfirst (by decide) "b" (by simp), components_tangledBoard, hcomponents _ components_tangledBoard⟩

end Board

end Workboard
