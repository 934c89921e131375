import Workboard.Board.Execute
import Workboard.Proofs.Keyed

/-! Where the copies of a node are kept.

A node may have a copy at board level and one in each layer. `Board.copy?` looks a copy up by its shelf
(none for the board, a layer's id otherwise), and what an elementary change does is told by what it does
to the copies. All but the copies stays the same (`Board.SameRest`). -/

namespace Workboard

/-! ### Distinct nodes -/

namespace Node

theorem mem_map_id_distinct {x : String} : ∀ {l : List Node} {seen : List String},
    x ∈ (distinct seen l).map (·.id) ↔ x ∉ seen ∧ x ∈ l.map (·.id)
  | [], seen => by simp [distinct]
  | m :: r, seen => by
    unfold distinct
    split
    · rename_i hm
      rw [mem_map_id_distinct, List.map_cons, List.mem_cons]
      constructor
      · rintro ⟨hx, h⟩
        exact ⟨hx, Or.inr h⟩
      · rintro ⟨hx, rfl | h⟩
        · exact absurd hm hx
        · exact ⟨hx, h⟩
    · rename_i hm
      rw [List.map_cons, List.mem_cons, mem_map_id_distinct, List.map_cons, List.mem_cons, List.mem_cons, not_or]
      by_cases hx : x = m.id
      · subst hx
        simp [hm]
      · simp [hx]

theorem nodup_map_id_distinct : ∀ {l : List Node} {seen : List String}, ((distinct seen l).map (·.id)).Nodup
  | [], _ => by simp [distinct]
  | m :: r, seen => by
    unfold distinct
    split
    · exact nodup_map_id_distinct
    · rw [List.map_cons, List.nodup_cons]
      refine ⟨fun h => ?_, nodup_map_id_distinct⟩
      exact (mem_map_id_distinct.mp h).1 List.mem_cons_self

/-- Nodes that keep their ids are told apart as before. -/
theorem distinct_map (f : Node → Node) (hid : ∀ n, (f n).id = n.id) (seen : List String) (l : List Node) :
    distinct seen (l.map f) = (distinct seen l).map f := by
  induction l generalizing seen with
  | nil => rfl
  | cons n r ih =>
    rw [List.map_cons, distinct, distinct, hid]
    split
    · exact ih seen
    · rw [List.map_cons, ih]

theorem mem_distinct {n : Node} : ∀ {l : List Node} {seen : List String},
    n ∈ distinct seen l ↔ n.id ∉ seen ∧ l.find? (·.id = n.id) = some n
  | [], seen => by simp [distinct]
  | m :: r, seen => by
    unfold distinct
    by_cases he : m.id = n.id
    · -- The first node of this id: another one is passed over.
      rw [List.find?_cons_of_pos (by simpa using he), Option.some.injEq]
      split
      · rename_i hm
        rw [mem_distinct]
        exact ⟨fun h => absurd (he ▸ hm) h.1, fun h => absurd (he ▸ hm) h.1⟩
      · rename_i hm
        rw [List.mem_cons, mem_distinct, List.mem_cons, not_or]
        constructor
        · rintro (rfl | h)
          · exact ⟨hm, rfl⟩
          · exact absurd he.symm h.1.1
        · rintro ⟨-, rfl⟩
          exact Or.inl rfl
    · rw [List.find?_cons_of_neg (by simpa using he)]
      split
      · exact mem_distinct
      · rw [List.mem_cons, mem_distinct, List.mem_cons, not_or]
        have hne : n ≠ m := fun h => he (congrArg Node.id h).symm
        have hne' : n.id ≠ m.id := fun h => he h.symm
        simp only [hne, hne', false_or, not_false_eq_true, true_and]

end Node

namespace Board

variable {b b' : Board}

/-! ### Copies -/

/-- The copy of a node at board level, or in a layer. -/
def copy? (b : Board) (shelf : Option String) (id : String) : Option Node :=
  match shelf with
  | none => b.nodes.get? id
  | some layer => (b.layers.get? layer).bind (·.nodes.get? id)

/-- The ids of the board's nodes, each once. -/
def nodeIds (b : Board) : List String := b.allNodes.map (·.id)

/-- If every copy of a node is changed in one way that keeps the ids, so is every node. -/
theorem allNodes_mapValues {f : Node → Node} (hf : ∀ n, (f n).id = n.id) {g : Layer → Layer}
    (hg : ∀ l, (g l).nodes = l.nodes.mapValues fun _ => f) (hnodes : b'.nodes = b.nodes.mapValues fun _ => f)
    (hlayers : b'.layers = b.layers.mapValues fun _ => g) : b'.allNodes = b.allNodes.map f := by
  have hcopies : b'.nodeCopies = b.nodeCopies.map f := by
    rw [nodeCopies, nodeCopies, hnodes, hlayers, ← KeyMap.map_values, ← KeyMap.map_values, List.map_append, List.flatMap_map,
      List.map_flatMap]
    simp only [hg, KeyMap.map_values]
  rw [allNodes, hcopies, Node.distinct_map f hf, allNodes]

/-- Every copy of a node is stored under the node's id. -/
structure Keyed (b : Board) : Prop where
  nodes : b.nodes.Keyed Node.id
  mirrors : ∀ id layer, b.layers.get? id = some layer → layer.nodes.Keyed Node.id

theorem mem_copiesIn {orders : Orders} {n : Node} : n ∈ b.copiesIn orders ↔ n ∈ b.nodeCopies := by
  simp only [copiesIn, nodeCopies, List.mem_append, (KeyMap.perm_valuesIn _ _).mem_iff, List.mem_flatMap,
    (KeyMap.perm_entriesIn _ _).mem_iff, KeyMap.values, List.mem_map, exists_exists_and_eq_and]

/-- A node all of whose copies are the same is met in every order. -/
theorem mem_nodesIn {orders : Orders} {n : Node} (hn : n ∈ b.nodeCopies) (hsame : ∀ m ∈ b.nodeCopies, m.id = n.id → m = n) :
    n ∈ b.nodesIn orders := by
  rw [nodesIn, Node.mem_distinct]
  refine ⟨List.not_mem_nil, ?_⟩
  cases hfound : (b.copiesIn orders).find? (·.id = n.id) with
  | none => simpa using List.find?_eq_none.mp hfound n (mem_copiesIn.mpr hn)
  | some m =>
    have hid : m.id = n.id := by simpa using List.find?_some hfound
    exact congrArg some (hsame m (mem_copiesIn.mp (List.mem_of_find?_eq_some hfound)) hid)

theorem mem_nodeCopies_of_mem_nodesIn {orders : Orders} {n : Node} (hn : n ∈ b.nodesIn orders) : n ∈ b.nodeCopies :=
  mem_copiesIn.mp (List.mem_of_find?_eq_some (Node.mem_distinct.mp hn).2)

theorem keyed_iff_entries :
    b.Keyed ↔ b.nodes.Keyed Node.id ∧ ∀ e ∈ b.layers.entries, e.2.nodes.Keyed Node.id := by
  constructor
  · rintro ⟨hn, hm⟩
    exact ⟨hn, fun e he => hm e.1 e.2 (KeyMap.get?_eq_some_iff_mem.mpr he)⟩
  · rintro ⟨hn, hm⟩
    exact ⟨hn, fun id layer h => hm (id, layer) (KeyMap.get?_eq_some_iff_mem.mp h)⟩

instance : Decidable b.Keyed := decidable_of_iff _ keyed_iff_entries.symm

theorem copy?_some_eq_some {layer id : String} {n : Node} :
    b.copy? (some layer) id = some n ↔ ∃ l, b.layers.get? layer = some l ∧ l.nodes.get? id = some n :=
  Option.bind_eq_some_iff

theorem keyed_iff : b.Keyed ↔ ∀ shelf id n, b.copy? shelf id = some n → n.id = id := by
  constructor
  · rintro ⟨hn, hm⟩ shelf id n h
    cases shelf with
    | none => exact hn id n h
    | some layer =>
      obtain ⟨l, hl, h⟩ := copy?_some_eq_some.mp h
      exact hm layer l hl id n h
  · intro h
    exact ⟨fun id n hn => h none id n hn,
      fun layer l hl id n hn => h (some layer) id n (copy?_some_eq_some.mpr ⟨l, hl, hn⟩)⟩

theorem mem_nodeCopies {n : Node} : n ∈ b.nodeCopies ↔ ∃ shelf id, b.copy? shelf id = some n := by
  unfold nodeCopies
  rw [List.mem_append, KeyMap.mem_values, List.mem_flatMap]
  constructor
  · rintro (⟨id, h⟩ | ⟨l, hl, hn⟩)
    · exact ⟨none, id, h⟩
    · obtain ⟨layer, hl⟩ := KeyMap.mem_values.mp hl
      obtain ⟨id, hn⟩ := KeyMap.mem_values.mp hn
      exact ⟨some layer, id, copy?_some_eq_some.mpr ⟨l, hl, hn⟩⟩
  · rintro ⟨_ | layer, id, h⟩
    · exact Or.inl ⟨id, h⟩
    · obtain ⟨l, hl, hn⟩ := copy?_some_eq_some.mp h
      exact Or.inr ⟨l, KeyMap.mem_values.mpr ⟨layer, hl⟩, KeyMap.mem_values.mpr ⟨id, hn⟩⟩

theorem copy?_of_node? {id : String} {n : Node} (h : b.node? id = some n) : ∃ shelf, b.copy? shelf id = some n := by
  unfold node? at h
  split at h
  · rename_i m hm
    cases h
    exact ⟨none, hm⟩
  · obtain ⟨l, hl, hn⟩ := List.exists_of_findSome?_eq_some h
    obtain ⟨layer, hl⟩ := KeyMap.mem_values.mp hl
    exact ⟨some layer, copy?_some_eq_some.mpr ⟨l, hl, hn⟩⟩

/-- The copy at board level counts before those in the layers. -/
theorem node?_of_copy?_none {id : String} {n : Node} (h : b.copy? none id = some n) : b.node? id = some n := by
  have h' : b.nodes.get? id = some n := h
  simp only [node?, h']

theorem node?_isSome_iff {id : String} : (b.node? id).isSome = true ↔ ∃ shelf n, b.copy? shelf id = some n := by
  constructor
  · intro h
    obtain ⟨n, hn⟩ := Option.isSome_iff_exists.mp h
    obtain ⟨shelf, h⟩ := copy?_of_node? hn
    exact ⟨shelf, n, h⟩
  · rintro ⟨_ | layer, n, h⟩
    · rw [node?_of_copy?_none h]
      rfl
    · obtain ⟨l, hl, hn⟩ := copy?_some_eq_some.mp h
      unfold node?
      split
      · rfl
      · rw [List.findSome?_isSome_iff]
        exact ⟨l, KeyMap.mem_values.mpr ⟨layer, hl⟩, by rw [hn]; rfl⟩

theorem Keyed.id_of_node? (hb : b.Keyed) {id : String} {n : Node} (h : b.node? id = some n) : n.id = id := by
  obtain ⟨shelf, h⟩ := copy?_of_node? h
  exact keyed_iff.mp hb shelf id n h

theorem mem_nodeIds {x : String} : x ∈ b.nodeIds ↔ ∃ shelf id n, b.copy? shelf id = some n ∧ n.id = x := by
  unfold nodeIds allNodes
  rw [Node.mem_map_id_distinct]
  simp only [List.not_mem_nil, not_false_eq_true, true_and, List.mem_map, mem_nodeCopies]
  constructor
  · rintro ⟨n, ⟨shelf, id, h⟩, hx⟩
    exact ⟨shelf, id, n, h, hx⟩
  · rintro ⟨shelf, id, n, h, hx⟩
    exact ⟨n, ⟨shelf, id, h⟩, hx⟩

theorem mem_nodeIds_of_copy? (hb : b.Keyed) {x : String} {shelf : Option String} {n : Node}
    (h : b.copy? shelf x = some n) : x ∈ b.nodeIds :=
  mem_nodeIds.mpr ⟨shelf, x, n, h, keyed_iff.mp hb shelf x n h⟩

theorem Keyed.mem_nodeIds_iff (hb : b.Keyed) {x : String} : x ∈ b.nodeIds ↔ ∃ shelf n, b.copy? shelf x = some n := by
  constructor
  · intro hx
    obtain ⟨shelf, id, n, h, rfl⟩ := mem_nodeIds.mp hx
    have hid := keyed_iff.mp hb shelf id n h
    exact ⟨shelf, n, by rw [hid]; exact h⟩
  · rintro ⟨shelf, n, h⟩
    exact mem_nodeIds_of_copy? hb h

/-- On a keyed board the first copy that a traversal meets is the one that a look-up gives. -/
theorem Keyed.find?_nodeCopies (hb : b.Keyed) (id : String) : b.nodeCopies.find? (·.id = id) = b.node? id := by
  unfold nodeCopies node?
  rw [List.find?_append, hb.nodes.find?_values, List.find?_flatMap]
  cases b.nodes.get? id with
  | some n => rfl
  | none =>
    rw [Option.none_or]
    -- Each layer's copies are keyed, so the searches agree layer by layer.
    have hall : ∀ l ∈ b.layers.values, l.nodes.values.find? (·.id = id) = l.nodes.get? id := fun l hl => by
      obtain ⟨layer, hl⟩ := KeyMap.mem_values.mp hl
      exact (hb.mirrors layer l hl).find?_values id
    revert hall
    induction b.layers.values with
    | nil => exact fun _ => rfl
    | cons l r ih =>
      intro hall
      rw [List.findSome?_cons, List.findSome?_cons, hall l List.mem_cons_self,
        ih fun l' hl' => hall l' (List.mem_cons_of_mem l hl')]

theorem Keyed.mem_allNodes (hb : b.Keyed) {n : Node} : n ∈ b.allNodes ↔ b.node? n.id = some n := by
  unfold allNodes
  rw [Node.mem_distinct, hb.find?_nodeCopies]
  simp

/-- The members of a layer are the nodes whose counting copy says so. -/
theorem Keyed.mem_membersOf (hb : b.Keyed) {layer x : String} :
    x ∈ b.membersOf layer ↔ ∃ n, b.node? x = some n ∧ n.layer = some layer := by
  unfold membersOf
  rw [List.mem_map]
  constructor
  · rintro ⟨n, hn, rfl⟩
    obtain ⟨hn, hl⟩ := List.mem_filter.mp hn
    exact ⟨n, hb.mem_allNodes.mp hn, of_decide_eq_true hl⟩
  · rintro ⟨n, hn, hl⟩
    have hid := hb.id_of_node? hn
    refine ⟨n, List.mem_filter.mpr ⟨hb.mem_allNodes.mpr ?_, decide_eq_true hl⟩, hid⟩
    rw [hid]
    exact hn

end Board

end Workboard
