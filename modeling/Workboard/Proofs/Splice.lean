import Workboard.Proofs.Footprint
import Workboard.Proofs.Sound

/-! A layer that is taken out of the hierarchy.

On a board without cycles there is one chain of layers around everything (`Board.Ancestry`), and a climb meets it from the
inside as far as the depth allows (`Board.Ancestry.climbFrom_eq`). A layer that is removed while its nodes stay is missing
from all chains afterwards, and they stay the same otherwise (`Board.removeLayer_splices`). -/

namespace Workboard.Board

open Relation

variable {b b' : Board} {id : String} {owner owner' stop : Option String} {rungs passed : List Rung}

/-! ### Chains of layers -/

/-- The layers around what an owner owns, from the inside out, and the id at which they end if no layer has it. -/
inductive Ancestry (b : Board) : Option String → List Rung → Option String → Prop
  | root : Ancestry b none [] none
  | unknown {id : String} (missing : b.layers.get? id = none) : Ancestry b (some id) [] (some id)
  | inside {id : String} {l : Layer} {rungs : List Rung} {stop : Option String} (found : b.layers.get? id = some l)
    (around : Ancestry b l.parent rungs stop) : Ancestry b (some id) (⟨id, l.name⟩ :: rungs) stop

theorem Ancestry.unique {rungs' : List Rung} {stop' : Option String} (h : b.Ancestry owner rungs stop)
    (h' : b.Ancestry owner rungs' stop') : rungs = rungs' ∧ stop = stop' := by
  induction h generalizing rungs' stop' with
  | root =>
    cases h'
    exact ⟨rfl, rfl⟩
  | unknown missing =>
    cases h' with
    | unknown => exact ⟨rfl, rfl⟩
    | inside found => cases missing.symm.trans found
  | inside found _ ih =>
    cases h' with
    | unknown missing => cases missing.symm.trans found
    | inside found' around' =>
      obtain rfl := Option.some.inj (found.symm.trans found')
      obtain ⟨rfl, rfl⟩ := ih around'
      exact ⟨rfl, rfl⟩

section Acyclic
variable (hacyclic : ∀ layer, ¬ TransGen b.Inside layer layer)
include hacyclic

/-- There are finitely many layers, so a way out ends. -/
theorem wellFounded_inside : WellFounded fun outer layer => b.Inside layer outer := by
  let outward : String → String → Prop := fun outer layer => TransGen b.Inside layer outer
  have : IsStrictOrder String outward := {
    irrefl := hacyclic
    trans := fun _ _ _ hxy hyz => hyz.trans hxy }
  let parents : List String := b.layers.values.filterMap (·.parent)
  have hfinite : {layer | layer ∈ b.layers.keys ++ parents}.Finite := List.finite_toSet _
  have hon := hfinite.wellFoundedOn (r := outward)
  refine Subrelation.wf (fun {outer layer} hin => ?_) (Set.wellFoundedOn_iff.mp hon)
  obtain ⟨l, hl, hp⟩ := hin
  have houter : outer ∈ parents := List.mem_filterMap.mpr ⟨l, KeyMap.mem_values.mpr ⟨layer, hl⟩, hp⟩
  have hlayer : layer ∈ b.layers.keys := KeyMap.mem_keys.mpr (KeyMap.contains_iff.mpr ⟨l, hl⟩)
  exact ⟨.single ⟨l, hl, hp⟩, List.mem_append_right _ houter, List.mem_append_left _ hlayer⟩

theorem exists_ancestry (owner : Option String) : ∃ rungs stop, b.Ancestry owner rungs stop := by
  have hlayers : ∀ layer, ∃ rungs stop, b.Ancestry (some layer) rungs stop := by
    intro layer
    induction layer using (wellFounded_inside hacyclic).induction with
    | h layer ih =>
      cases hl : b.layers.get? layer with
      | none => exact ⟨[], some layer, .unknown hl⟩
      | some l =>
        cases hp : l.parent with
        | none =>
          have haround : b.Ancestry l.parent [] none := by
            rw [hp]
            exact .root
          exact ⟨[⟨layer, l.name⟩], none, .inside hl haround⟩
        | some outer =>
          obtain ⟨rungs, stop, h⟩ := ih outer ⟨l, hl, hp⟩
          exact ⟨⟨layer, l.name⟩ :: rungs, stop, .inside hl (hp.symm ▸ h)⟩
  cases owner with
  | none => exact ⟨[], none, .root⟩
  | some layer => exact hlayers layer

end Acyclic

/-- The layers of a chain are reached from its owner. -/
theorem Ancestry.reached (h : b.Ancestry owner rungs stop) {r : Rung} (hr : r ∈ rungs) :
    ∃ layer, owner = some layer ∧ ReflTransGen b.Inside layer r.id := by
  induction h with
  | root | unknown => cases hr
  | @inside id l _ _ found _ ih =>
    refine ⟨id, rfl, ?_⟩
    rcases List.mem_cons.mp hr with rfl | hr
    · exact .refl
    · obtain ⟨outer, hp, hreach⟩ := ih hr
      exact .head ⟨l, found, hp⟩ hreach

theorem Ancestry.found (h : b.Ancestry owner rungs stop) {r : Rung} (hr : r ∈ rungs) :
    ∃ l, b.layers.get? r.id = some l ∧ l.name = r.name := by
  induction h with
  | root | unknown => cases hr
  | inside found _ ih =>
    rcases List.mem_cons.mp hr with rfl | hr
    · exact ⟨_, found, rfl⟩
    · exact ih hr

theorem Ancestry.missing (h : b.Ancestry owner rungs stop) {layer : String} (hstop : stop = some layer) :
    b.layers.get? layer = none := by
  induction h with
  | root => cases hstop
  | unknown missing => exact Option.some.inj hstop ▸ missing
  | inside _ _ ih => exact ih hstop

/-- The ids that a climb meets. -/
def stations (rungs : List Rung) (stop : Option String) : List String := rungs.map (·.id) ++ stop.toList

theorem Ancestry.nodup_stations (h : b.Ancestry owner rungs stop) (hacyclic : ∀ layer, ¬ TransGen b.Inside layer layer) :
    (stations rungs stop).Nodup := by
  have hrungs : (rungs.map (·.id)).Nodup := by
    induction h with
    | root | unknown => exact List.nodup_nil
    | @inside id l _ _ found around ih =>
      refine List.nodup_cons.mpr ⟨fun hmem => ?_, ih⟩
      obtain ⟨r, hr, rfl⟩ := List.mem_map.mp hmem
      obtain ⟨outer, hp, hreach⟩ := around.reached hr
      exact hacyclic r.id (.head' ⟨l, found, hp⟩ hreach)
  refine List.nodup_append.mpr ⟨hrungs, by cases stop <;> simp, fun x hx y hy he => ?_⟩
  subst he
  obtain ⟨r, hr, rfl⟩ := List.mem_map.mp hx
  obtain ⟨l, hl, -⟩ := h.found hr
  rw [h.missing (Option.mem_toList.mp hy)] at hl
  cases hl

/-! ### Climbs -/

/-- A climb meets the layers of the chain, as many as there may be, and fails if there are more stations. -/
theorem Ancestry.climbFrom_eq (h : b.Ancestry owner rungs stop) {fuel : Nat}
    (hnodup : (stations rungs stop ++ passed.map (·.id)).Nodup) (hroom : passed.length ≤ maxLayerDepth)
    (hfuel : maxLayerDepth < passed.length + fuel) :
    climbFrom b.layers fuel passed owner = ((rungs.take (maxLayerDepth - passed.length)).reverse ++ passed,
      if passed.length + (stations rungs stop).length ≤ maxLayerDepth then none else some .tooDeep) := by
  induction h generalizing passed fuel with
  | root =>
    have hlow : passed.length + (stations [] none).length ≤ maxLayerDepth := hroom
    rw [if_pos hlow]
    cases fuel <;> simp [climbFrom]
  | @unknown id missing =>
    obtain ⟨fuel, rfl⟩ : ∃ n, fuel = n + 1 := Nat.exists_eq_succ_of_ne_zero (by omega)
    have hnew : ¬ passed.any (·.id = id) = true := by simpa [stations] using (List.nodup_cons.mp hnodup).1
    have hcount : passed.length + (stations [] (some id)).length = passed.length + 1 := rfl
    rw [climbFrom, if_neg hnew, hcount]
    -- The depth is tested before the climb sees that the layer is missing.
    by_cases hfull : maxLayerDepth ≤ passed.length
    · rw [if_pos hfull, if_neg (by omega)]
      simp
    · rw [if_neg hfull, if_pos (by omega), missing]
      simp
  | @inside id l rungs stop found around ih =>
    obtain ⟨fuel, rfl⟩ : ∃ n, fuel = n + 1 := Nat.exists_eq_succ_of_ne_zero (by omega)
    have hnew : ¬ passed.any (·.id = id) = true := by
      have hnot : id ∉ rungs.map (·.id) ++ stop.toList ++ passed.map (·.id) := (List.nodup_cons.mp hnodup).1
      simpa using fun h => hnot (List.mem_append_right _ h)
    have hcount : passed.length + (stations (⟨id, l.name⟩ :: rungs) stop).length =
        passed.length + 1 + (stations rungs stop).length := by
      simp only [stations, List.map_cons, List.cons_append, List.length_cons]
      omega
    rw [climbFrom, if_neg hnew, hcount]
    by_cases hfull : maxLayerDepth ≤ passed.length
    · rw [if_pos hfull, if_neg (by omega), Nat.sub_eq_zero_of_le hfull]
      rfl
    · have hnodup' : (stations rungs stop ++ (⟨id, l.name⟩ :: passed : List Rung).map (·.id)).Nodup :=
        List.perm_middle.nodup_iff.mpr hnodup
      have hfuel' : maxLayerDepth < (⟨id, l.name⟩ :: passed : List Rung).length + fuel := by
        rw [List.length_cons]
        omega
      have hrest := ih hnodup' (Nat.lt_of_not_le hfull) hfuel'
      obtain ⟨room, hroom⟩ : ∃ n, maxLayerDepth - passed.length = n + 1 := Nat.exists_eq_succ_of_ne_zero (by omega)
      have hless : maxLayerDepth - (passed.length + 1) = room := by omega
      rw [List.length_cons, hless] at hrest
      rw [if_neg hfull, found, hroom]
      simpa using hrest

theorem Ancestry.climb_eq {layer : String} (h : b.Ancestry (some layer) rungs stop) (hnodup : (stations rungs stop).Nodup) :
    b.climb layer = ((rungs.take maxLayerDepth).reverse,
      if (stations rungs stop).length ≤ maxLayerDepth then none else some .tooDeep) := by
  have hnodup' : (stations rungs stop ++ ([] : List Rung).map (·.id)).Nodup := by simpa using hnodup
  have hfuel : maxLayerDepth < ([] : List Rung).length + (maxLayerDepth + 2) := by simp
  have hclimb := h.climbFrom_eq hnodup' (Nat.zero_le _) hfuel
  rwa [List.length_nil, Nat.zero_add, Nat.sub_zero, List.append_nil] at hclimb

/-- The names of a chain's layers as they are listed, from the outside in. -/
def namesOf (rungs : List Rung) : List String := (rungs.map (·.name)).reverse

/-- The path to what an owner owns. -/
def trail (b : Board) : Option String → Except ClimbFault (List String)
  | some layer => b.layerPath layer
  | none => .ok []

/-- The part of that path that a climb meets. -/
def trailSoFar (b : Board) : Option String → List String
  | some layer => b.layerPathSoFar layer
  | none => []

theorem Ancestry.trail_eq (h : b.Ancestry owner rungs stop) (hnodup : (stations rungs stop).Nodup) :
    b.trail owner = if (stations rungs stop).length ≤ maxLayerDepth then .ok (namesOf rungs) else .error .tooDeep := by
  cases owner with
  | none =>
    cases h
    rfl
  | some layer =>
    show b.layerPath layer = _
    unfold layerPath
    rw [h.climb_eq hnodup]
    by_cases hlow : (stations rungs stop).length ≤ maxLayerDepth
    · have hall : rungs.length ≤ maxLayerDepth := by
        rw [stations, List.length_append, List.length_map] at hlow
        omega
      simp only [if_pos hlow, List.take_of_length_le hall, List.map_reverse, namesOf]
    · simp only [if_neg hlow]

theorem Ancestry.trailSoFar_eq (h : b.Ancestry owner rungs stop) (hnodup : (stations rungs stop).Nodup) :
    b.trailSoFar owner = namesOf (rungs.take maxLayerDepth) := by
  cases owner with
  | none =>
    cases h
    rfl
  | some layer =>
    show b.layerPathSoFar layer = _
    unfold layerPathSoFar
    rw [h.climb_eq hnodup, namesOf, List.map_reverse]

/-! ### The removal -/

/-- Around what `owner` owns on one board and `owner'` on the other there are the same layers, but for one that is gone; so
are they on the paths that are not too long. -/
structure Spliced (b b' : Board) (id : String) (owner owner' : Option String) (rungs : List Rung) (stop : Option String) :
    Prop where
  before : b.Ancestry owner rungs stop
  after : b'.Ancestry owner' (rungs.filter (·.id ≠ id)) stop
  nodup : (rungs.map (·.id)).Nodup
  paths : (stations rungs stop).length ≤ maxLayerDepth →
    b.trail owner = .ok (namesOf rungs) ∧ b'.trail owner' = .ok (namesOf (rungs.filter (·.id ≠ id)))
  pathsSoFar : rungs.length ≤ maxLayerDepth →
    b.trailSoFar owner = namesOf rungs ∧ b'.trailSoFar owner' = namesOf (rungs.filter (·.id ≠ id))

/-- Nothing on a board refers to a layer. -/
structure Detached (b : Board) (id : String) : Prop where
  layers : b.layers.contains id = false
  parents : ∀ k l, b.layers.get? k = some l → l.parent ≠ some id
  nodes : ∀ shelf x n, b.copy? shelf x = some n → n.layer ≠ some id
  comments : ∀ k c, b.comments.get? k = some c → c.layer ≠ some id

section Removal
variable {keepNodes : Bool} {l : Layer}

theorem promoted_removeLayer (hl : b.layers.get? id = some l) (owner : Option String) :
    b.promoted (.removeLayer id keepNodes) owner = if owner = some id then l.parent else owner := by
  simp only [promoted, parentOf?, hl, Option.bind_some]

theorem promoted_ne (hl : b.layers.get? id = some l) (hself : l.parent ≠ some id) (owner : Option String) :
    b.promoted (.removeLayer id keepNodes) owner ≠ some id := by
  rw [promoted_removeLayer hl]
  split
  · exact hself
  · assumption

variable (hf : b.Footprint (.removeLayer id keepNodes) (.removed id) b')
include hf

theorem Footprint.get?_layers_removed : b'.layers.get? id = none := by
  have hnone := hf.layers id
  rw [get?_bareLayers] at hnone
  simpa [Mutation.layerKey?, Receipt.layer?] using hnone

theorem Footprint.bareLayers_of_ne {k : String} (hk : k ≠ id) : (b'.layers.get? k).map (fun l => { l with nodes := ∅ }) =
    (b.layers.get? k).map fun l => { l with parent := b.promoted (.removeLayer id keepNodes) l.parent, nodes := ∅ } := by
  have hsome := hf.layers k
  rw [get?_bareLayers, get?_bareLayers, Mutation.layerKey?, if_neg fun he => hk (Option.some.inj he).symm, Option.map_map] at hsome
  exact hsome

/-- A layer that stays has its name still, and its parent unless that was removed. -/
theorem Footprint.layer_of_ne {k : String} (hk : k ≠ id) {lk : Layer} (hlk : b.layers.get? k = some lk) :
    ∃ l', b'.layers.get? k = some l' ∧ l'.name = lk.name ∧
      l'.parent = b.promoted (.removeLayer id keepNodes) lk.parent := by
  have hsome := hf.bareLayers_of_ne hk
  rw [hlk, Option.map_some] at hsome
  obtain ⟨l', hl', he⟩ := Option.map_eq_some_iff.mp hsome
  obtain ⟨-, hname, -, hparent, -⟩ := Layer.mk.injEq .. ▸ he
  exact ⟨l', hl', hname, hparent⟩

theorem Footprint.spliced (hl : b.layers.get? id = some l) (hself : l.parent ≠ some id) (h : b.Ancestry owner rungs stop) :
    b'.Ancestry (b.promoted (.removeLayer id keepNodes) owner) (rungs.filter (·.id ≠ id)) stop := by
  induction h with
  | root => exact .root
  | @unknown k missing =>
    have hk : k ≠ id := by
      rintro rfl
      cases missing.symm.trans hl
    rw [promoted_removeLayer hl, if_neg fun he => hk (Option.some.inj he)]
    have hnone := hf.bareLayers_of_ne hk
    rw [missing, Option.map_none, Option.map_eq_none_iff] at hnone
    exact .unknown hnone
  | @inside k lk rungs stop found _ ih =>
    by_cases hk : k = id
    · -- The chain goes on from the layer that is removed as it does from its parent.
      subst hk
      obtain rfl := Option.some.inj (hl.symm.trans found)
      rw [promoted_removeLayer hl, if_neg hself] at ih
      rw [promoted_removeLayer hl, if_pos rfl, List.filter_cons_of_neg (by simp)]
      exact ih
    · obtain ⟨l', hl', hname, hparent⟩ := hf.layer_of_ne hk found
      rw [promoted_removeLayer hl, if_neg fun he => hk (Option.some.inj he), List.filter_cons_of_pos (by simpa using hk), ← hname]
      exact .inside hl' (hparent ▸ ih)

end Removal

theorem namesOf_take_of_le (h : rungs.length ≤ maxLayerDepth) : namesOf (rungs.take maxLayerDepth) = namesOf rungs := by
  rw [List.take_of_length_le h]

theorem stations_filter (id : String) (rungs : List Rung) (stop : Option String) :
    (stations (rungs.filter (·.id ≠ id)) stop).Sublist (stations rungs stop) :=
  (List.filter_sublist.map _).append_right _

theorem spliced_of_after (hacyclic : ∀ layer, ¬ TransGen b.Inside layer layer)
    (hafter : ∀ rungs stop, b.Ancestry owner rungs stop → b'.Ancestry owner' (rungs.filter (·.id ≠ id)) stop) :
    ∃ rungs stop, b.Spliced b' id owner owner' rungs stop := by
  obtain ⟨rungs, stop, h⟩ := exists_ancestry hacyclic owner
  have h' := hafter rungs stop h
  have hnodup := h.nodup_stations hacyclic
  have hnodup' := hnodup.sublist (stations_filter id rungs stop)
  refine ⟨rungs, stop, h, h', hnodup.of_append_left, fun hlow => ?_, fun hlow => ?_⟩
  · rw [h.trail_eq hnodup, h'.trail_eq hnodup', if_pos hlow, if_pos ((stations_filter id rungs stop).length_le.trans hlow)]
    exact ⟨rfl, rfl⟩
  · rw [h.trailSoFar_eq hnodup, h'.trailSoFar_eq hnodup', namesOf_take_of_le hlow,
      namesOf_take_of_le ((List.length_filter_le _ _).trans hlow)]
    exact ⟨rfl, rfl⟩

/-- Nodes that go to a layer have a copy there. -/
theorem InStep.copy?_assignLayers_some (h : b.InStep) {ids : List String} {own x : String} (hown : b.layers.contains own = true)
    (hx : x ∈ ids ∨ b.copy? (some own) x = b.copy? none x) :
    (b.assignLayers ids (some own)).copy? (some own) x = (b.assignLayers ids (some own)).copy? none x := by
  unfold Board.assignLayers
  induction ids generalizing b with
  | nil => exact hx.resolve_left List.not_mem_nil
  | cons id ids ih =>
    refine ih (h.assignLayer id (some own)) (((sameRest_assignLayer b id _).contains own).trans hown) ?_
    by_cases hid : id = x
    · subst hid
      refine Or.inr ?_
      show (b.assignLayer id (some own)).copy? (some own) id = (b.assignLayer id (some own)).copy? none id
      cases hn : b.node? id with
      | none =>
        have hnone : ∀ shelf, b.copy? shelf id = none := by
          intro shelf
          cases hc : b.copy? shelf id with
          | none => rfl
          | some m => cases hn.symm.trans ((h.node? id).trans (h.top_of_copy? hc))
        rw [assignLayer_of_node?_eq_none hn, hnone, hnone]
      | some n =>
        have hkey := h.toKeyed.id_of_node? hn
        rw [copy?_assignLayer_some hn hkey, copy?_assignLayer_none hn hkey, if_pos rfl, if_pos rfl, if_pos ⟨rfl, hown⟩]
    · refine hx.imp (fun hx => (List.mem_cons.mp hx).resolve_left (Ne.symm hid)) fun hx => ?_
      exact (h.toKeyed.copy?_assignLayer_ne _ _ hid).trans (hx.trans (h.toKeyed.copy?_assignLayer_ne _ _ hid).symm)

/-- A node stays as it is but for its layer. -/
theorem InStep.copy?_of_footprint (h : b.InStep) (hf : b.Footprint (.removeLayer id true) (.removed id) b') (x : String) :
    b'.copy? none x = (b.copy? none x).map fun n => { n with layer := b.promoted (.removeLayer id true) n.layer } := by
  have hmember : x ∈ b.membersOf id ↔ ∃ n, b.copy? none x = some n ∧ n.layer = some id := by
    rw [h.toKeyed.mem_membersOf, h.node?]
  by_cases hx : x ∈ b.membersOf id
  · obtain ⟨n, hn, hown⟩ := hmember.mp hx
    refine (hf.named x hx).trans ?_
    show (b.copy? none x).map _ = _
    rw [hn, Option.map_some, Option.map_some, promoted, if_pos hown]
  · refine (hf.others x hx).trans ((b.map_disconnectFrom_pinKeys_nil _).trans ?_)
    show b.copy? none x = _
    cases hn : b.copy? none x with
    | none => rfl
    | some n =>
      have hown : n.layer ≠ some id := fun hown => hx (hmember.mpr ⟨n, hn, hown⟩)
      rw [Option.map_some, promoted, if_neg hown]

theorem InStep.detached_of_footprint (h : b.InStep) (hf : b.Footprint (.removeLayer id true) (.removed id) b') {l : Layer}
    (hl : b.layers.get? id = some l) (hself : l.parent ≠ some id)
    (htop : ∀ shelf x n, b'.copy? shelf x = some n → b'.copy? none x = some n) : b'.Detached id := by
  have howner : ∀ owner, b.promoted (.removeLayer id true) owner ≠ some id := promoted_ne hl hself
  refine ⟨KeyMap.contains_eq_false_iff.mpr hf.get?_layers_removed, fun k l' hl' => ?_, fun shelf x n hn => ?_, fun k c hc => ?_⟩
  · have hk : k ≠ id := by
      rintro rfl
      cases hl'.symm.trans hf.get?_layers_removed
    have hbare := hf.bareLayers_of_ne hk
    rw [hl'] at hbare
    obtain ⟨lk, hlk, -⟩ := Option.map_eq_some_iff.mp hbare.symm
    obtain ⟨l'', hl'', -, hparent⟩ := hf.layer_of_ne hk hlk
    obtain rfl := Option.some.inj (hl'.symm.trans hl'')
    exact hparent ▸ howner lk.parent
  · have hn := htop shelf x n hn
    rw [h.copy?_of_footprint hf] at hn
    obtain ⟨m, -, rfl⟩ := Option.map_eq_some_iff.mp hn
    exact howner m.layer
  · have hkeep : b'.comments.get? k = (b.comments.get? k).map _ := hf.comments k
    rw [hkeep] at hc
    obtain ⟨before, -, rfl⟩ := Option.map_eq_some_iff.mp hc
    exact howner before.layer

/-- A layer is removed from a board without cycles while its nodes stay. The chain of layers around each other layer, node
and comment is the one before without the layer, and nothing refers to it; the nodes that it owned are in the layer around it,
with a copy there if that exists. -/
theorem removeLayer_splices (h : b.InStep) (hacyclic : ∀ layer, ¬ TransGen b.Inside layer layer) {l : Layer}
    (hl : b.layers.get? id = some l) :
    let b' := (b.execute (.removeLayer id true)).board
    (b.execute (.removeLayer id true)).result = .ok (.removed id) ∧
    ((∀ k, k ≠ id → b.layers.contains k = true → b'.layers.contains k = true ∧
        ∃ rungs stop, b.Spliced b' id (some k) (some k) rungs stop) ∧
      (∀ x n, b.copy? none x = some n → ∃ owner rungs stop, b'.copy? none x = some { n with layer := owner } ∧
        b.Spliced b' id n.layer owner rungs stop) ∧
      (∀ k c, b.comments.get? k = some c → ∃ owner rungs stop, b'.comments.get? k = some { c with layer := owner } ∧
        b.Spliced b' id c.layer owner rungs stop)) ∧
    b'.Detached id ∧
    ∀ x ∈ b.membersOf id, ∀ parent, l.parent = some parent → b.layers.contains parent = true →
      ∃ n, b'.copy? none x = some n ∧ n.layer = some parent ∧ b'.copy? (some parent) x = some n := by
  intro b'
  have hkept : b.perform (.removeLayer id true) = _ := removeLayer_keeping (needLayer_eq_ok.mpr hl)
  have hself : l.parent ≠ some id := fun hp => hacyclic id (.single ⟨l, hl, hp⟩)
  have hr : (b.execute (.removeLayer id true)).result = .ok (.removed id) := by
    unfold execute
    rw [hkept]
  obtain ⟨hperform, hboard⟩ := execute_of_ok hr
  have hf : b.Footprint (.removeLayer id true) (.removed id) b' := by
    rw [show b' = _ from hboard]
    exact (h.footprint (h.toKeyed.yields hperform)).countChange
  have hcopies : b'.copy? = ((b.assignLayers (b.membersOf id) l.parent).dissolveLayer id l.parent).copy? := by
    show (b.execute (.removeLayer id true)).board.copy? = _
    rw [hboard, hkept]
    rfl
  have htop : ∀ shelf x n, b'.copy? shelf x = some n → b'.copy? none x = some n := by
    rw [hcopies]
    exact fun _ _ _ => ((h.assignLayers _ _).dissolveLayer _ _).top_of_copy?
  have hnodes := h.copy?_of_footprint hf
  have hspliced : ∀ owner, ∃ rungs stop, b.Spliced b' id owner (b.promoted (.removeLayer id true) owner) rungs stop := fun _ =>
    spliced_of_after hacyclic fun _ _ => hf.spliced hl hself
  refine ⟨hr, ⟨fun k hk hlk => ?_, fun x n hn => ?_, fun k c hc => ?_⟩, h.detached_of_footprint hf hl hself htop,
    fun x hx parent hp hparent => ?_⟩
  · obtain ⟨lk, hlk⟩ := KeyMap.contains_iff.mp hlk
    obtain ⟨l', hl', -⟩ := hf.layer_of_ne hk hlk
    have hsame := hspliced (some k)
    rw [promoted_removeLayer hl, if_neg fun he => hk (Option.some.inj he)] at hsame
    exact ⟨KeyMap.contains_iff.mpr ⟨l', hl'⟩, hsame⟩
  · obtain ⟨rungs, stop, hchain⟩ := hspliced n.layer
    exact ⟨_, rungs, stop, by rw [hnodes, hn, Option.map_some], hchain⟩
  · obtain ⟨rungs, stop, hchain⟩ := hspliced c.layer
    have hkeep : b'.comments.get? k = (b.comments.get? k).map _ := hf.comments k
    exact ⟨_, rungs, stop, by rw [hkeep, hc, Option.map_some], hchain⟩
  · have hne : id ≠ parent := by
      rintro rfl
      exact hself hp
    obtain ⟨n, hn, hown⟩ := h.toKeyed.mem_membersOf.mp hx
    rw [h.node?] at hn
    have hn' : b'.copy? none x = some { n with layer := some parent } := by
      rw [hnodes, hn, Option.map_some, promoted_removeLayer hl, if_pos hown, hp]
    refine ⟨_, hn', rfl, ?_⟩
    have hcopy := h.copy?_assignLayers_some hparent (Or.inl hx)
    rw [hcopies, hp] at hn' ⊢
    rw [copy?_dissolveLayer_some, if_neg hne, hcopy]
    exact hn'

theorem acyclic_nested (layer : String) : ¬ TransGen nested.Inside layer layer := by
  -- An inner layer's id is less than that of the layer around it.
  have hlt : ∀ {x y}, nested.Inside x y → x < y := by
    rintro x y ⟨l, hl, hp⟩
    rcases List.mem_cons.mp (KeyMap.mem_of_get?_ofList hl) with he | he
    · cases he
      cases hp
      decide
    rcases List.mem_cons.mp he with he | he
    · cases he
      cases hp
      decide
    · cases List.mem_singleton.mp he
      cases hp
  have hlt' : ∀ {x y}, TransGen nested.Inside x y → x < y := fun h => by
    induction h with
    | single h => exact hlt h
    | tail _ h ih => exact String.lt_trans ih (hlt h)
  exact fun h => String.lt_irrefl _ (hlt' h)

/-- The middle of three layers is removed: the inner one is in the outer one then, as is the node of the middle one. -/
theorem splices_nested :
    let b' := (nested.execute (.removeLayer "l" true)).board
    nested.InStep ∧ (∀ layer, ¬ TransGen nested.Inside layer layer) ∧ (∃ l, nested.layers.get? "l" = some l) ∧
    (∃ rungs stop, nested.Spliced b' "l" (some "k") (some "k") rungs stop) ∧ b'.Detached "l" ∧
    nested.trail (some "k") = .ok ["Outer", "Middle", "Inner"] ∧ b'.trail (some "k") = .ok ["Outer", "Inner"] ∧
    ∃ n, b'.copy? none "m" = some n ∧ n.layer = some "o" ∧ b'.copy? (some "o") "m" = some n := by
  intro b'
  obtain ⟨l, hl⟩ : ∃ l, nested.layers.get? "l" = some l := ⟨_, rfl⟩
  have hparent : l.parent = some "o" := by
    cases hl
    rfl
  obtain ⟨-, ⟨hlayers, -, -⟩, hdetached, hmirrored⟩ := removeLayer_splices inStep_nested acyclic_nested hl
  obtain ⟨-, hspliced⟩ := hlayers "k" (by decide) (by decide)
  exact ⟨inStep_nested, acyclic_nested, ⟨l, hl⟩, hspliced, hdetached, rfl, rfl,
    hmirrored "m" (by decide) "o" hparent (by decide)⟩

end Workboard.Board
