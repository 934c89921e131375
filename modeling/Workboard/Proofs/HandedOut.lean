import Workboard.Proofs.Mirrored
import Workboard.Proofs.PinStep
import Workboard.Proofs.Records

/-! Ids that a board hands out.

The search for an id ends at the first number behind the count of ids in use that is free (`isLeast_freshId`). On an
orderly board whatever has an id has one that is in use, so the ids that a mutation is given for what it stores are had
by nothing else, and nothing is stored over (`Board.execute_hands_out`). -/

namespace Workboard

/-! ### The search -/

/-- The numbers that the search passes over are taken. -/
theorem freshFrom_passes (taken : KeySet) (stem : String) (fuel n : Nat) :
    ∃ k ≤ fuel, freshFrom taken stem fuel n = numberedId stem (n + k) ∧
      ∀ i < k, taken.contains (numberedId stem (n + i)) = true := by
  induction fuel generalizing n with
  | zero => exact ⟨0, Nat.le_refl 0, rfl, fun i hi => absurd hi (Nat.not_lt_zero i)⟩
  | succ fuel ih =>
    unfold freshFrom
    split
    · rename_i htaken
      obtain ⟨k, hk, hfound, hpassed⟩ := ih (n + 1)
      refine ⟨k + 1, Nat.succ_le_succ hk, by rw [hfound, Nat.add_assoc, Nat.add_comm 1 k], fun i hi => ?_⟩
      cases i with
      | zero => exact htaken
      | succ i =>
        rw [show n + (i + 1) = n + 1 + i by omega]
        exact hpassed i (Nat.lt_of_succ_lt_succ hi)
    · exact ⟨0, Nat.zero_le _, rfl, fun i hi => absurd hi (Nat.not_lt_zero i)⟩

/-- The search goes up from one more than there are ids, and ends at the first number that is free; it passes over no more
    numbers than there are ids. -/
theorem isLeast_freshId (taken : KeySet) (stem : String) :
    ∃ n, freshId taken stem = numberedId stem n ∧ n ≤ 2 * taken.size + 1 ∧
      IsLeast {i | taken.size < i ∧ taken.contains (numberedId stem i) = false} n := by
  obtain ⟨k, hk, hfound, hpassed⟩ := freshFrom_passes taken stem taken.size (taken.size + 1)
  have hfree := freshId_free taken stem
  have hfound : freshId taken stem = numberedId stem (taken.size + 1 + k) := hfound
  rw [hfound] at hfree
  refine ⟨taken.size + 1 + k, hfound, by omega, ⟨by omega, hfree⟩, fun i hi => ?_⟩
  obtain ⟨hlow, hi⟩ := hi
  by_contra hlt
  have htaken := hpassed (i - (taken.size + 1)) (by omega)
  rw [show taken.size + 1 + (i - (taken.size + 1)) = i by omega, hi] at htaken
  cases htaken

/-! ### Keys -/

theorem KeySet.contains_insert_eq_false {s : KeySet} {a x : String} :
    (s.insert a).contains x = false ↔ a ≠ x ∧ s.contains x = false := by
  rw [KeySet.contains_insert, Bool.or_eq_false_iff, decide_eq_false_iff_not]

namespace KeyMap

variable {α : Type} {id : α → String} {l : List α}

/-- The values of a map that is made of values with different ids. -/
theorem values_ofList_perm (h : (l.map id).Nodup) : (ofList (l.map fun v => (id v, v))).values.Perm l := by
  have hkeys : ((l.map fun v => (id v, v)).map (·.1)).Nodup := by
    rw [List.map_map]
    exact h
  have hentries : (ofList (l.map fun v => (id v, v))).entries.Perm (l.map fun v => (id v, v)) :=
    (List.perm_ext_iff_of_nodup (nodup_keys _).of_map hkeys.of_map).mpr fun e => mem_entries_ofList hkeys
  have hvalues := hentries.map Prod.snd
  rw [List.map_map] at hvalues
  exact hvalues.trans (List.Perm.of_eq (List.map_id l))

end KeyMap

/-! ### New pins -/

/-- A pin under another id and without connections. -/
def Pin.renewed (p : Pin) (id : String) : Pin := { p with id, connectedTo := ∅, dependsOn := ∅ }

/-- Pins are renewed one by one, under different ids that are not taken. -/
theorem renewPins_eq (taken : KeySet) (pins : List Pin) :
    ∃ ids : List String, ids.length = pins.length ∧ ids.Nodup ∧ (∀ x ∈ ids, taken.contains x = false) ∧
      Board.renewPins taken pins = List.zipWith Pin.renewed pins ids := by
  induction pins generalizing taken with
  | nil => exact ⟨[], rfl, List.nodup_nil, fun x hx => absurd hx List.not_mem_nil, rfl⟩
  | cons p pins ih =>
    obtain ⟨ids, hlength, hnodup, hfree, hpins⟩ := ih (taken.insert (freshId taken "pin"))
    have hother : ∀ x ∈ ids, freshId taken "pin" ≠ x ∧ taken.contains x = false := fun x hx =>
      KeySet.contains_insert_eq_false.mp (hfree x hx)
    refine ⟨freshId taken "pin" :: ids, congrArg Nat.succ hlength, ?_, ?_, ?_⟩
    · exact List.nodup_cons.mpr ⟨fun hmem => (hother _ hmem).1 rfl, hnodup⟩
    · exact List.forall_mem_cons.mpr ⟨freshId_free taken "pin", fun x hx => (hother x hx).2⟩
    · rw [Board.renewPins, hpins]
      rfl

theorem map_id_zipWith_renewed {pins : List Pin} {ids : List String} (h : ids.length = pins.length) :
    (List.zipWith Pin.renewed pins ids).map (·.id) = ids := by
  induction pins generalizing ids with
  | nil =>
    obtain rfl := List.length_eq_zero_iff.mp h
    rfl
  | cons p pins ih =>
    cases ids with
    | nil => cases h
    | cons id ids => exact congrArg (id :: ·) (ih (Nat.succ.inj h))

/-- What is paired with the members of one list can be paired with them as they are in another order. -/
theorem exists_zipWith_perm {α β γ : Type} (f : α → β → γ) {l l' : List α} (h : l.Perm l') {m : List β}
    (hlength : m.length = l.length) :
    ∃ m' : List β, m'.length = l'.length ∧ (List.zipWith f l m).Perm (List.zipWith f l' m') := by
  induction h generalizing m with
  | nil => exact ⟨m, hlength, .refl _⟩
  | cons a _ ih =>
    obtain ⟨b, m, rfl⟩ := List.exists_cons_of_length_eq_add_one hlength
    obtain ⟨m', hlength', hperm⟩ := ih (Nat.succ.inj hlength)
    exact ⟨b :: m', congrArg Nat.succ hlength', hperm.cons _⟩
  | swap a a' l =>
    obtain ⟨b, m, rfl⟩ := List.exists_cons_of_length_eq_add_one hlength
    obtain ⟨b', m, rfl⟩ := List.exists_cons_of_length_eq_add_one (Nat.succ.inj hlength)
    exact ⟨b' :: b :: m, hlength, .swap _ _ _⟩
  | trans _ _ ih ih' =>
    obtain ⟨m', hlength', hperm⟩ := ih hlength
    obtain ⟨m'', hlength'', hperm'⟩ := ih' hlength'
    exact ⟨m'', hlength'', hperm.trans hperm'⟩

/-- A node made of a template: it has just as many pins, each a pin of the template with other ids and connections, and
    differs in nothing else but its id and its layer. -/
structure Node.MadeOf (n template : Node) (layer : Option String) : Prop where
  rest : n = { template with id := n.id, pins := n.pins, layer }
  size : n.pins.size = template.pins.size
  keyed : n.pins.Keyed Pin.id
  pins : ∃ ids : List String, ids.length = template.pins.size ∧
    n.pins.values.Perm (List.zipWith Pin.renewed template.pins.values ids)

/-! ### Ids on a board -/

/-- The ids that a receipt tells: that of the entity, and of a node's pins. -/
def Receipt.ids : Receipt → List String
  | storedNode n => n.id :: n.pins.values.map (·.id)
  | r => [r.id]

namespace Mutation

/-- Whether a mutation leaves the id of what it stores to the board. -/
def needsId : Mutation → Bool
  | addNode .. => true
  | upsertVariable v _ => v.id = ""
  | upsertComment c _ _ => c.id = ""
  | upsertLayer l _ => l.id = ""
  | _ => false

/-- The nodes that are to go to the layer that a mutation stores. -/
def moved : Mutation → List String
  | upsertLayer _ members => members
  | _ => []

end Mutation

namespace Board

variable {b b' : Board} {x : String} {m : Mutation} {r : Receipt}

/-- Everything is stored under its own id, and the copies in layers are those at board level. -/
structure Orderly (b : Board) : Prop extends b.InStep, b.Indexed where
  pins : ∀ x n, b.copy? none x = some n → n.pins.Keyed Pin.id

theorem Mirrored.orderly (h : b.Mirrored) : b.Orderly where
  toInStep := h.inStep
  toIndexed := h.toIndexed
  pins x := (h.nodes x).pins

/-- Something on the board has the id. -/
inductive HasId (b : Board) : String → Prop
  | node {shelf : Option String} {k : String} {n : Node} (held : b.copy? shelf k = some n) : HasId b n.id
  | nodePin {shelf : Option String} {k j : String} {n : Node} {p : Pin} (held : b.copy? shelf k = some n)
    (pin : n.pins.get? j = some p) : HasId b p.id
  | layer {k : String} {l : Layer} (held : b.layers.get? k = some l) : HasId b l.id
  | boundaryPin {k j : String} {l : Layer} {p : Pin} (held : b.layers.get? k = some l) (pin : l.pins.get? j = some p) :
    HasId b p.id
  | var {k : String} {v : Variable} (held : b.vars.get? k = some v) : HasId b v.id
  | comment {k : String} {c : Comment} (held : b.comments.get? k = some c) : HasId b c.id

/-- The entity that a receipt tells is on the board, under its id. -/
def Holds (b : Board) : Receipt → Prop
  | .storedNode n => b.copy? none n.id = some n
  | .storedVariable v => b.vars.get? v.id = some v
  | .storedComment c => b.comments.get? c.id = some c
  | .storedLayer l => b.layers.get? l.id = some l
  | .connection .. | .removed _ => False

theorem Holds.hasId (h : b.Holds r) (hx : x ∈ r.ids) : b.HasId x := by
  cases r with
  | storedNode n =>
    rcases List.mem_cons.mp hx with rfl | hx
    · exact .node h
    · obtain ⟨p, hp, rfl⟩ := List.mem_map.mp hx
      obtain ⟨k, hk⟩ := KeyMap.mem_values.mp hp
      exact .nodePin h hk
  | storedVariable v => exact List.mem_singleton.mp hx ▸ .var h
  | storedComment c => exact List.mem_singleton.mp hx ▸ .comment h
  | storedLayer l => exact List.mem_singleton.mp hx ▸ .layer h
  | connection | removed => cases h

/-- Whatever was on a board is there as it was, but for the layers of the nodes that were moved. -/
structure Untouched (b b' : Board) (moved : List String) : Prop where
  copies : ∀ shelf x n, x ∉ moved → b.copy? shelf x = some n → b'.copy? shelf x = some n
  moved : ∀ x ∈ moved, ∀ n, b.copy? none x = some n → ∃ layer, b'.copy? none x = some { n with layer }
  vars : ∀ k v, b.vars.get? k = some v → b'.vars.get? k = some v
  comments : ∀ k c, b.comments.get? k = some c → b'.comments.get? k = some c
  layers : ∀ k l, b.layers.get? k = some l → ∃ nodes, b'.layers.get? k = some { l with nodes }

theorem mem_usedIds : x ∈ b.usedIds ↔ (∃ n ∈ b.allNodes, x = n.id ∨ n.pins.contains x = true) ∨
    (∃ k l, b.layers.get? k = some l ∧ (x = l.id ∨ l.pins.contains x = true)) ∨
    b.vars.contains x = true ∨ b.comments.contains x = true := by
  simp only [usedIds, List.mem_append, List.mem_flatMap, List.mem_cons, KeyMap.mem_keys, KeyMap.mem_values, or_assoc]
  simp only [← exists_and_right, exists_comm (α := Layer)]

/-- On an orderly board all ids are in use. -/
theorem Orderly.mem_usedIds (h : b.Orderly) (hx : b.HasId x) : x ∈ b.usedIds := by
  have hcontains {α : Type} {m : KeyMap α} {k : String} {v : α} (hv : m.get? k = some v) : m.contains k = true :=
    KeyMap.contains_iff.mpr ⟨v, hv⟩
  have hnode {shelf : Option String} {k : String} {n : Node} (hn : b.copy? shelf k = some n) : n ∈ b.allNodes := by
    have hid := keyed_iff.mp h.toKeyed shelf k n hn
    rw [h.toKeyed.mem_allNodes, h.toInStep.node?, hid]
    exact h.top_of_copy? hn
  rw [Board.mem_usedIds]
  cases hx with
  | node hn => exact Or.inl ⟨_, hnode hn, Or.inl rfl⟩
  | nodePin hn hp =>
    refine Or.inl ⟨_, hnode hn, Or.inr ?_⟩
    rw [h.pins _ _ (h.top_of_copy? hn) _ _ hp]
    exact hcontains hp
  | layer hl => exact Or.inr (Or.inl ⟨_, _, hl, Or.inl rfl⟩)
  | boundaryPin hl hp =>
    refine Or.inr (Or.inl ⟨_, _, hl, Or.inr ?_⟩)
    rw [h.layerPins _ _ hl _ _ hp]
    exact hcontains hp
  | var hv =>
    rw [h.vars _ _ hv]
    exact Or.inr (Or.inr (Or.inl (hcontains hv)))
  | comment hc =>
    rw [h.comments _ _ hc]
    exact Or.inr (Or.inr (Or.inr (hcontains hc)))

theorem contains_takenIds_eq_false : b.takenIds.contains x = false ↔ x ∉ b.usedIds := by
  rw [← Bool.not_eq_true]
  exact not_congr (KeySet.contains_ofList _ _)

/-- What is not taken nothing has. -/
theorem Orderly.not_hasId (h : b.Orderly) (hx : b.takenIds.contains x = false) : ¬ b.HasId x := fun hid =>
  contains_takenIds_eq_false.mp hx (h.mem_usedIds hid)

/-! ### What is stored -/

/-- A copy of a template has just its pins, under other ids. -/
theorem madeOf_instantiate (b : Board) (template : Node) (layer : Option String) (order : List String) :
    (b.instantiate template layer order).MadeOf template layer ∧
      (Receipt.storedNode (b.instantiate template layer order)).ids.Nodup ∧
      ∀ x ∈ (Receipt.storedNode (b.instantiate template layer order)).ids, b.takenIds.contains x = false := by
  obtain ⟨ids, hlength, hnodup, hfree, hpins⟩ := renewPins_eq (b.takenIds.insert (freshId b.takenIds "node"))
    (template.pins.valuesIn order)
  have hids := map_id_zipWith_renewed hlength
  have hmap : (b.instantiate template layer order).pins =
      .ofList ((List.zipWith Pin.renewed (template.pins.valuesIn order) ids).map fun p => (p.id, p)) := by rw [← hpins]; rfl
  have hvalues : (b.instantiate template layer order).pins.values.Perm
      (List.zipWith Pin.renewed (template.pins.valuesIn order) ids) := by
    rw [hmap]
    exact KeyMap.values_ofList_perm (hids.symm ▸ hnodup)
  have hperm : ((b.instantiate template layer order).pins.values.map (·.id)).Perm ids := hids ▸ hvalues.map _
  have hother : ∀ x ∈ ids, freshId b.takenIds "node" ≠ x ∧ b.takenIds.contains x = false := fun x hx =>
    KeySet.contains_insert_eq_false.mp (hfree x hx)
  -- Whatever the order, the ids can be listed in the order of the keys.
  obtain ⟨listed, hlisted, hpaired⟩ := exists_zipWith_perm Pin.renewed (KeyMap.perm_valuesIn order template.pins) hlength
  have hsize : template.pins.values.length = template.pins.size := List.length_map _
  refine ⟨⟨rfl, ?_, KeyMap.Keyed.ofList _, listed, hlisted.trans hsize, hvalues.trans hpaired⟩, ?_, ?_⟩
  · have hcount := (hvalues.trans hpaired).length_eq
    rw [List.length_zipWith, hlisted, Nat.min_self, hsize] at hcount
    rw [← hcount]
    exact (List.length_map _).symm
  · exact List.nodup_cons.mpr ⟨fun hmem => (hother _ (hperm.mem_iff.mp hmem)).1 rfl, hperm.nodup_iff.mpr hnodup⟩
  · exact List.forall_mem_cons.mpr ⟨freshId_free _ _, fun x hx => (hother x (hperm.mem_iff.mp hx)).2⟩

/-- What is stored under ids that are free: they are different and had by nothing, and nothing else is touched. -/
structure HandsOut (b : Board) (m : Mutation) (b' : Board) (r : Receipt) : Prop where
  nodup : r.ids.Nodup
  free : ∀ x ∈ r.ids, b.takenIds.contains x = false
  holds : b'.Holds r
  untouched : b.Untouched b' m.moved

theorem Untouched.refl (b : Board) : b.Untouched b [] where
  copies _ _ _ _ h := h
  moved _ hx := absurd hx List.not_mem_nil
  vars _ _ h := h
  comments _ _ h := h
  layers _ l h := ⟨l.nodes, h⟩

theorem SameRest.exists_nodes (h : SameRest b b') {k : String} {l : Layer} (hl : b.layers.get? k = some l) :
    ∃ nodes, b'.layers.get? k = some { l with nodes } := by
  obtain ⟨l', hl'⟩ := KeyMap.contains_iff.mp ((h.contains k).trans (KeyMap.contains_iff.mpr ⟨l, hl⟩))
  obtain ⟨l₀, hl₀, he⟩ := h.layer hl'
  obtain rfl := Option.some.inj (hl.symm.trans hl₀)
  exact ⟨l'.nodes, he ▸ hl'⟩

theorem Orderly.handsOut_addNode (h : b.Orderly) (template : Node) (layer : Option String) (order : List String) :
    b.HandsOut (.addNode template layer order) (b.storeNode (b.instantiate template layer order))
      (.storedNode (b.instantiate template layer order)) := by
  obtain ⟨-, hnodup, hfree⟩ := b.madeOf_instantiate template layer order
  have hrest := sameRest_storeNode b (b.instantiate template layer order)
  refine ⟨hnodup, hfree, ?_, ?_⟩
  · show (b.storeNode _).copy? none _ = _
    rw [copy?_storeNode_none, if_pos rfl]
  · refine ⟨fun shelf x n _ hn => ?_, fun _ hx => absurd hx List.not_mem_nil, fun k v hv => hrest.vars.symm ▸ hv,
      fun k c hc => hrest.comments.symm ▸ hc, fun k l hl => hrest.exists_nodes hl⟩
    rw [copy?_storeNode_of_ne fun he => ?_]
    · exact hn
    · have hnew : b.copy? shelf (b.instantiate template layer order).id = none := h.toKeyed.copy?_freshId "node" shelf
      rw [he, hn] at hnew
      cases hnew

/-- A value that is put into a map under a key that it does not have leaves the others. -/
theorem get?_insert_of_free {α : Type} {m : KeyMap α} {id : String} (hid : m.contains id = false) (v : α) {k : String}
    {w : α} (hk : m.get? k = some w) : (m.insert id v).get? k = some w := by
  rw [KeyMap.get?_insert, if_neg fun he => ?_]
  · exact hk
  · rw [he, KeyMap.contains_iff.mpr ⟨w, hk⟩] at hid
    cases hid

theorem notContains_of_free (hx : b.takenIds.contains x = false) :
    b.vars.contains x = false ∧ b.comments.contains x = false := by
  have hunused := contains_takenIds_eq_false.mp hx
  rw [Board.mem_usedIds] at hunused
  simp only [not_or, Bool.not_eq_true] at hunused
  exact hunused.2.2

theorem handsOut_upsertVariable {v : Variable} (hid : v.id = "") (former : Option Variable) :
    b.HandsOut (.upsertVariable v former) { b with vars := b.vars.insert (b.storedVariable v).id (b.storedVariable v) }
      (.storedVariable (b.storedVariable v)) := by
  have hnew : (b.storedVariable v).id = freshId b.takenIds "var" := by
    unfold storedVariable
    rw [if_pos hid]
  have hfree : b.takenIds.contains (b.storedVariable v).id = false := hnew ▸ freshId_free _ _
  refine ⟨List.nodup_singleton _, fun x hx => List.mem_singleton.mp hx ▸ hfree, ?_,
    { Untouched.refl b with vars := ?_ }⟩
  · show (b.vars.insert _ _).get? _ = _
    rw [KeyMap.get?_insert, if_pos rfl]
  · exact fun k w hw => get?_insert_of_free (notContains_of_free hfree).1 _ hw

theorem handsOut_upsertComment {c : Comment} (hid : c.id = "") (former : Option Comment) (layer : Option String) :
    b.HandsOut (.upsertComment c former layer)
      { b with comments := b.comments.insert (b.storedComment c layer).id (b.storedComment c layer) }
      (.storedComment (b.storedComment c layer)) := by
  have hnew : (b.storedComment c layer).id = freshId b.takenIds "comment" := by
    unfold storedComment
    split <;> exact congrArg Comment.id (if_pos hid)
  have hfree : b.takenIds.contains (b.storedComment c layer).id = false := hnew ▸ freshId_free _ _
  refine ⟨List.nodup_singleton _, fun x hx => List.mem_singleton.mp hx ▸ hfree, ?_,
    { Untouched.refl b with comments := ?_ }⟩
  · show (b.comments.insert _ _).get? _ = _
    rw [KeyMap.get?_insert, if_pos rfl]
  · exact fun k w hw => get?_insert_of_free (notContains_of_free hfree).2 _ hw

theorem Orderly.handsOut_upsertLayer (h : b.Orderly) {l : Layer} (hid : l.id = "") {members : List String}
    (hmembers : b.needNodes members = .ok ()) {l' : Layer}
    (hl' : ((b.storeLayer l).assignLayers members (some (b.storedLayer l).id)).layers.get? (b.storedLayer l).id = some l') :
    b.HandsOut (.upsertLayer l members) ((b.storeLayer l).assignLayers members (some (b.storedLayer l).id))
      (.storedLayer l') := by
  have hnew : (b.storedLayer l).id = freshId b.takenIds "layer" := by
    rw [id_storedLayer, namedLayer, if_pos hid]
  have hfree : b.takenIds.contains (b.storedLayer l).id = false := hnew ▸ freshId_free _ _
  have hnone : b.layers.contains (b.storedLayer l).id = false := hnew ▸ contains_layers_freshId h.layers "layer"
  have hrest := sameRest_assignLayers (b.storeLayer l) members (some (b.storedLayer l).id)
  have hid' : l'.id = (b.storedLayer l).id := by
    obtain ⟨l₀, hl₀, he⟩ := hrest.layer hl'
    rw [storeLayer, KeyMap.get?_insert, if_pos rfl] at hl₀
    rw [he, ← Option.some.inj hl₀]
  have hroot : ∀ x ∈ members, (b.storeLayer l).Rooted x := fun x hx => by
    obtain ⟨n, hn⟩ := node?_of_needNodes hmembers hx
    rw [h.toInStep.node?] at hn
    exact ⟨n, hn, h.toKeyed.nodes x n hn, h.pins x n hn⟩
  refine ⟨List.nodup_singleton _, fun x hx => ?_, ?_, ?_⟩
  · obtain rfl : x = l'.id := List.mem_singleton.mp hx
    rwa [hid']
  · show ((b.storeLayer l).assignLayers members (some (b.storedLayer l).id)).layers.get? l'.id = some l'
    rwa [hid']
  refine ⟨fun shelf x n hx hn => ?_, fun x hx n hn => ?_, fun k v hv => hrest.vars.symm ▸ hv,
    fun k c hc => hrest.comments.symm ▸ hc, fun k l₀ hl₀ => hrest.exists_nodes (get?_insert_of_free hnone _ hl₀)⟩
  · rw [copy?_assignLayers_of_rooted hroot hx]
    cases shelf with
    | none => exact hn
    | some layer =>
      rw [copy?_storeLayer_some, if_neg fun he => ?_]
      · exact hn
      · rw [he, contains_of_copy? hn] at hnone
        cases hnone
  · change x ∈ members at hx
    refine ⟨some (b.storedLayer l).id, ?_⟩
    rw [copy?_assignLayers_none fun id hid => (hroot id hid).anchored, if_pos hx]
    exact congrArg (Option.map ({ · with layer := some (b.storedLayer l).id })) hn

/-- What a mutation that needs an id is answered and makes of an orderly board. -/
theorem Orderly.handsOut (h : b.Orderly) (hm : m.needsId = true) (hr : (b.perform m).result = .ok r) :
    b.HandsOut m (b.perform m).board r := by
  cases m with
  | addNode template layer order =>
    obtain ⟨u, -, hnext⟩ := Effect.given_of_ok hr
    have hperform : b.perform (.addNode template layer order) = _ := hnext
    rw [hperform] at hr ⊢
    cases hr
    exact h.handsOut_addNode template layer order
  | upsertVariable v former =>
    cases hr
    exact handsOut_upsertVariable (of_decide_eq_true hm) former
  | upsertComment c former layer =>
    obtain ⟨u, -, hnext⟩ := Effect.given_of_ok hr
    have hperform : b.perform (.upsertComment c former layer) = _ := hnext
    rw [hperform] at hr ⊢
    cases hr
    exact handsOut_upsertComment (of_decide_eq_true hm) former layer
  | upsertLayer l members =>
    have hperform : b.perform (.upsertLayer l members) = _ := upsertLayer_eq b l members
    rw [hperform] at hr ⊢
    obtain ⟨_, -, hnext⟩ := Effect.given_of_ok hr
    rw [hnext] at hr ⊢
    obtain ⟨u, hmembers, hnext⟩ := Effect.given_of_ok hr
    rw [hnext] at hr ⊢
    dsimp only at hr ⊢
    cases hfound : ((b.storeLayer l).assignLayers members (some (b.storedLayer l).id)).needLayer (b.storedLayer l).id with
    | error e =>
      rw [hfound] at hr
      cases hr
    | ok l' =>
      rw [hfound] at hr
      cases hr
      exact h.handsOut_upsertLayer (of_decide_eq_true hm) hmembers (needLayer_eq_ok.mp hfound)
  | _ => cases hm

theorem HandsOut.countChange (h : b.HandsOut m b' r) : b.HandsOut m b'.countChange r where
  nodup := h.nodup
  free := h.free
  holds := by
    have hholds := h.holds
    cases r <;> exact hholds
  untouched := ⟨h.untouched.copies, h.untouched.moved, h.untouched.vars, h.untouched.comments, h.untouched.layers⟩

/-- A mutation that leaves the ids of what it stores to an orderly board gets different ones that nothing on the board has,
    and the search for each ends at the first free number. What it stores is on the board afterwards, with all else that was
    there, but for the layers of the nodes that go to a new layer; and a node has just the pins of its template. -/
theorem execute_hands_out (h : b.Orderly) (hm : m.needsId = true) (hr : (b.execute m).result = .ok r) :
    (r.ids.Nodup ∧ (∀ x ∈ r.ids, ¬ b.HasId x) ∧ ∀ x ∈ r.ids, (b.execute m).board.HasId x) ∧
    ((b.execute m).board.Holds r ∧ b.Untouched (b.execute m).board m.moved) ∧
    (∀ template layer order, m = .addNode template layer order → ∃ n, r = .storedNode n ∧ n.MadeOf template layer) ∧
    ∀ (taken : KeySet) (stem : String), ∃ n, freshId taken stem = numberedId stem n ∧ n ≤ 2 * taken.size + 1 ∧
      IsLeast {i | taken.size < i ∧ taken.contains (numberedId stem i) = false} n := by
  obtain ⟨hperform, hboard⟩ := execute_of_ok hr
  have hout : b.HandsOut m (b.execute m).board r := hboard ▸ (h.handsOut hm hperform).countChange
  refine ⟨⟨hout.nodup, fun x hx => h.not_hasId (hout.free x hx), fun x hx => hout.holds.hasId hx⟩,
    ⟨hout.holds, hout.untouched⟩, ?_, isLeast_freshId⟩
  rintro template layer order rfl
  obtain ⟨u, -, hnext⟩ := Effect.given_of_ok hperform
  have hstored : b.perform (.addNode template layer order) = _ := hnext
  rw [hstored] at hperform
  cases hperform
  exact ⟨_, rfl, (b.madeOf_instantiate template layer order).1⟩

/-- Where a node with two pins comes to a board on which other things have the ids that would be next. -/
theorem execute_hands_out_behind_others :
    let pin := fun id => (⟨id, id, id, "", .input, .string, .single, none, .ofList ["pin-3"], ∅⟩ : Pin)
    let template : Node := ⟨"pin-4", "log", "Log", "", "", none, .ofList [("a", pin "a"), ("b", pin "a")], .origin, none⟩
    let var (id : String) : Variable := ⟨id, "v", .string, .single, none, none, false, false, true⟩
    let b := ((Board.blank "b" "board").perform (.upsertVariable (var "node-3") none)).board
    let b := (b.perform (.upsertVariable (var "pin-4") none)).board
    let m := Mutation.addNode template none []
    ∃ n, b.Orderly ∧ m.needsId = true ∧ (b.execute m).result = .ok (.storedNode n) ∧
      (Receipt.storedNode n).ids = ["node-4", "pin-5", "pin-6"] ∧ (Receipt.storedNode n).ids.Nodup ∧
      (∀ x ∈ (Receipt.storedNode n).ids, ¬ b.HasId x) ∧ n.MadeOf template none := by
  intro pin template var b₁ b m
  have horderly : b.Orderly := ((mirrored_blank "b" "board").perform (m := .upsertVariable _ none) rfl).perform
    (m := .upsertVariable _ none) rfl |>.orderly
  have hr : (b.execute m).result = .ok (.storedNode (b.instantiate template none [])) := rfl
  obtain ⟨⟨hnodup, hfree, -⟩, -, hmade, -⟩ := execute_hands_out horderly (m := m) rfl hr
  obtain ⟨n, hn, hmade⟩ := hmade template none [] rfl
  obtain rfl := Receipt.storedNode.inj hn
  exact ⟨_, horderly, rfl, hr, by decide, hnodup, hfree, hmade⟩

end Board

end Workboard
