import Workboard.Proofs.Copies

/-! What the elementary changes of a board do.

Each is told by the copies afterwards (`copy?_…`) and by what stays: `SameRest` holds for a change that
touches nothing but the copies of nodes. A layer without its copies is what `bareLayers` keeps. -/

namespace Workboard.Board

variable {b b' b'' : Board} {x : String}

/-- Changes several nodes in the same way. -/
def editNodes (b : Board) (ids : List String) (f : Node → Node) : Board := ids.foldl (fun b id => b.editNode id f) b

/-- What holds throughout while several nodes are changed one after the other. -/
theorem board_editNodes {P : Board → Prop} {f : Node → Node} (hb : P b) (h : ∀ b id, P b → P (b.editNode id f))
    (ids : List String) : P (b.editNodes ids f) := List.foldlRecOn ids _ hb fun b hb id _ => h b id hb

/-- What holds throughout while several nodes are moved to a layer one after the other. -/
theorem board_assignLayers {P : Board → Prop} {layer : Option String} (hb : P b) (h : ∀ b id, P b → P (b.assignLayer id layer))
    (ids : List String) : P (b.assignLayers ids layer) := List.foldlRecOn ids _ hb fun b hb id _ => h b id hb

/-! ### What stays -/

/-- The layers without their copies of nodes. -/
def bareLayers (b : Board) : KeyMap Layer := b.layers.mapValues fun _ l => { l with nodes := ∅ }

/-- All but the nodes and their copies is as before. -/
structure SameRest (b b' : Board) : Prop where
  id : b'.id = b.id
  name : b'.name = b.name
  description : b'.description = b.description
  version : b'.version = b.version
  vars : b'.vars = b.vars
  comments : b'.comments = b.comments
  layers : b'.bareLayers = b.bareLayers

theorem SameRest.refl (b : Board) : SameRest b b := ⟨rfl, rfl, rfl, rfl, rfl, rfl, rfl⟩

theorem SameRest.trans (h₁ : SameRest b b') (h₂ : SameRest b' b'') : SameRest b b'' where
  id := h₂.id.trans h₁.id
  name := h₂.name.trans h₁.name
  description := h₂.description.trans h₁.description
  version := h₂.version.trans h₁.version
  vars := h₂.vars.trans h₁.vars
  comments := h₂.comments.trans h₁.comments
  layers := h₂.layers.trans h₁.layers

theorem SameRest.symm (h : SameRest b b') : SameRest b' b :=
  ⟨h.id.symm, h.name.symm, h.description.symm, h.version.symm, h.vars.symm, h.comments.symm, h.layers.symm⟩

theorem get?_bareLayers (b : Board) (layer : String) :
    b.bareLayers.get? layer = (b.layers.get? layer).map fun l => { l with nodes := ∅ } :=
  KeyMap.get?_mapValues _ _ _

/-- A layer is found again with the same fields, its copies apart. -/
theorem SameRest.layer (h : SameRest b b') {layer : String} {l' : Layer} (hl : b'.layers.get? layer = some l') :
    ∃ l, b.layers.get? layer = some l ∧ l' = { l with nodes := l'.nodes } := by
  have hb := b'.get?_bareLayers layer
  rw [h.layers, get?_bareLayers, hl] at hb
  obtain ⟨l, hl, he⟩ := Option.map_eq_some_iff.mp hb
  refine ⟨l, hl, ?_⟩
  obtain ⟨id, name, comment, parent, nodes, pins, place, color⟩ := l'
  obtain ⟨id', name', comment', parent', nodes', pins', place', color'⟩ := l
  simp only [Layer.mk.injEq] at he
  obtain ⟨rfl, rfl, rfl, rfl, -, rfl, rfl, rfl⟩ := he
  rfl

theorem SameRest.contains (h : SameRest b b') (layer : String) : b'.layers.contains layer = b.layers.contains layer := by
  have hb := b'.get?_bareLayers layer
  rw [h.layers, get?_bareLayers] at hb
  unfold KeyMap.contains
  cases hl : b.layers.get? layer <;> cases hl' : b'.layers.get? layer <;> simp_all

theorem SameRest.keys (h : SameRest b b') : b'.layers.keys = b.layers.keys := by
  have hkeys : ∀ b : Board, b.bareLayers.keys = b.layers.keys := fun b => KeyMap.keys_mapValues _ _
  rw [← hkeys b', h.layers, hkeys b]

/-- A look-up depends on the copies under an id and on the order of the layers. -/
theorem node?_eq_findSome? (b : Board) (x : String) :
    b.node? x = (b.copy? none x).or (b.layers.keys.findSome? fun layer => b.copy? (some layer) x) := by
  have hlayers : b.layers.values.findSome? (·.nodes.get? x) =
      b.layers.keys.findSome? fun layer => b.copy? (some layer) x := by
    unfold KeyMap.values KeyMap.keys
    rw [List.findSome?_map, List.findSome?_map]
    have hall : ∀ e ∈ b.layers.entries, b.copy? (some e.1) x = e.2.nodes.get? x := fun e he => by
      show (b.layers.get? e.1).bind _ = _
      rw [KeyMap.get?_eq_some_iff_mem.mpr he]
      rfl
    revert hall
    induction b.layers.entries with
    | nil => exact fun _ => rfl
    | cons e r ih =>
      intro hall
      rw [List.findSome?_cons, List.findSome?_cons, ih fun e' he' => hall e' (List.mem_cons_of_mem e he')]
      simp only [Function.comp_apply, hall e List.mem_cons_self]
  unfold node?
  rw [hlayers]
  show _ = (b.nodes.get? x).or _
  cases b.nodes.get? x <;> rfl

theorem SameRest.node?_map (h : SameRest b b') {g : Node → Node} (he : ∀ shelf, b'.copy? shelf x = (b.copy? shelf x).map g) :
    b'.node? x = (b.node? x).map g := by
  rw [node?_eq_findSome?, node?_eq_findSome?, h.keys, he none, Option.map_or, List.map_findSome?]
  simp only [he, Function.comp_def]

theorem SameRest.node?_congr (h : SameRest b b') (he : ∀ shelf, b'.copy? shelf x = b.copy? shelf x) :
    b'.node? x = b.node? x := by
  rw [node?_eq_findSome?, node?_eq_findSome?, h.keys, he none]
  simp only [he]

theorem SameRest.of_mapValues {g : String → Layer → Layer} (nodes : KeyMap Node)
    (hg : ∀ k l, { g k l with nodes := ∅ } = { l with nodes := ∅ }) :
    SameRest b { b with nodes, layers := b.layers.mapValues g } where
  id := rfl
  name := rfl
  description := rfl
  version := rfl
  vars := rfl
  comments := rfl
  layers := KeyMap.ext fun k => by
    rw [get?_bareLayers, get?_bareLayers, KeyMap.get?_mapValues, Option.map_map]
    exact congrArg (fun f => Option.map f (b.layers.get? k)) (funext fun l => hg k l)

theorem sameRest_editNode (b : Board) (id : String) (f : Node → Node) : SameRest b (b.editNode id f) :=
  SameRest.of_mapValues (b.nodes.modify id f) fun _ _ => rfl

theorem sameRest_unmirror (b : Board) (id : String) : SameRest b (b.unmirror id) :=
  SameRest.of_mapValues b.nodes fun _ _ => rfl

theorem sameRest_dropNode (b : Board) (id : String) : SameRest b (b.dropNode id) :=
  (sameRest_unmirror b id).trans ⟨rfl, rfl, rfl, rfl, rfl, rfl, rfl⟩

theorem sameRest_storeNode (b : Board) (n : Node) : SameRest b (b.storeNode n) := by
  unfold storeNode
  split
  · refine SameRest.of_mapValues (b.nodes.insert n.id n) fun k l => ?_
    split <;> rfl
  · exact ⟨rfl, rfl, rfl, rfl, rfl, rfl, rfl⟩

theorem sameRest_assignLayer (b : Board) (id : String) (layer : Option String) : SameRest b (b.assignLayer id layer) := by
  unfold assignLayer
  split
  · exact (sameRest_unmirror b id).trans (sameRest_storeNode _ _)
  · exact SameRest.refl b

theorem sameRest_assignLayers (b : Board) (ids : List String) (layer : Option String) :
    SameRest b (b.assignLayers ids layer) :=
  board_assignLayers (SameRest.refl b) (fun b' id h => h.trans (sameRest_assignLayer b' id layer)) ids

theorem sameRest_editNodes (b : Board) (ids : List String) (f : Node → Node) : SameRest b (b.editNodes ids f) :=
  board_editNodes (SameRest.refl b) (fun b' id h => h.trans (sameRest_editNode b' id f)) ids

/-! ### What becomes of the copies -/

theorem copy?_editNode (b : Board) (id : String) (f : Node → Node) (shelf : Option String) (j : String) :
    (b.editNode id f).copy? shelf j = if id = j then (b.copy? shelf j).map f else b.copy? shelf j := by
  cases shelf with
  | none => exact KeyMap.get?_modify _ _ _ _
  | some layer =>
    simp only [copy?, editNode, KeyMap.get?_mapValues]
    cases b.layers.get? layer with
    | none => simp
    | some l => simp [KeyMap.get?_modify]

theorem isSome_copy?_editNodes (b : Board) (ids : List String) (f : Node → Node) (shelf : Option String) (j : String) :
    ((b.editNodes ids f).copy? shelf j).isSome = (b.copy? shelf j).isSome := by
  unfold editNodes
  induction ids generalizing b with
  | nil => rfl
  | cons id ids ih =>
    rw [List.foldl_cons, ih, copy?_editNode]
    split
    · exact Option.isSome_map
    · rfl

theorem copy?_unmirror_none (b : Board) (id j : String) : (b.unmirror id).copy? none j = b.copy? none j := rfl

theorem copy?_unmirror_some (b : Board) (id layer j : String) :
    (b.unmirror id).copy? (some layer) j = if id = j then none else b.copy? (some layer) j := by
  simp only [copy?, unmirror, KeyMap.get?_mapValues]
  cases b.layers.get? layer with
  | none => simp
  | some l => simp [KeyMap.get?_erase]

theorem copy?_dropNode (b : Board) (id : String) (shelf : Option String) (j : String) :
    (b.dropNode id).copy? shelf j = if id = j then none else b.copy? shelf j := by
  cases shelf with
  | none => exact KeyMap.get?_erase _ _ _
  | some layer => exact copy?_unmirror_some b id layer j

theorem copy?_storeNode_none (b : Board) (n : Node) (j : String) :
    (b.storeNode n).copy? none j = if n.id = j then some n else b.copy? none j :=
  KeyMap.get?_insert _ _ _ _

theorem copy?_storeNode_some (b : Board) (n : Node) (layer j : String) :
    (b.storeNode n).copy? (some layer) j =
      if n.id = j ∧ n.layer = some layer ∧ b.layers.contains layer = true then some n else b.copy? (some layer) j := by
  unfold storeNode
  cases hn : n.layer with
  | none => simp [copy?]
  | some own =>
    simp only [copy?, KeyMap.get?_modify, KeyMap.contains, Option.some.injEq]
    by_cases ho : own = layer
    · subst ho
      cases b.layers.get? own with
      | none => simp
      | some l => simp [KeyMap.get?_insert]
    · simp [ho]

/-- A copy on a board with a node stored was there before, or is that node. -/
theorem copy?_storeNode_cases {n m : Node} {shelf : Option String} {j : String}
    (h : (b.storeNode n).copy? shelf j = some m) : b.copy? shelf j = some m ∨ (n.id = j ∧ m = n) := by
  cases shelf with
  | none =>
    rw [copy?_storeNode_none] at h
    split at h
    · rename_i hj
      cases h
      exact Or.inr ⟨hj, rfl⟩
    · exact Or.inl h
  | some layer =>
    rw [copy?_storeNode_some] at h
    split at h
    · rename_i hj
      cases h
      exact Or.inr ⟨hj.1, rfl⟩
    · exact Or.inl h

/-- A copy that is left was there before, and is at board level or one of another node. -/
theorem copy?_unmirror_cases {id j : String} {m : Node} {shelf : Option String}
    (h : (b.unmirror id).copy? shelf j = some m) : b.copy? shelf j = some m ∧ (shelf = none ∨ id ≠ j) := by
  cases shelf with
  | none => exact ⟨h, Or.inl rfl⟩
  | some layer =>
    rw [copy?_unmirror_some] at h
    split at h
    · cases h
    · rename_i hj
      exact ⟨h, Or.inr hj⟩

theorem copy?_storeNode_of_ne {n : Node} (hn : n.id ≠ x) (shelf : Option String) :
    (b.storeNode n).copy? shelf x = b.copy? shelf x := by
  cases shelf with
  | none => rw [copy?_storeNode_none, if_neg hn]
  | some layer => rw [copy?_storeNode_some, if_neg fun h => hn h.1]

theorem copy?_unmirror_of_ne {id : String} (hid : id ≠ x) (shelf : Option String) :
    (b.unmirror id).copy? shelf x = b.copy? shelf x := by
  cases shelf with
  | none => rfl
  | some layer => rw [copy?_unmirror_some, if_neg hid]

section Assign
variable {id : String}

/-- Assigning a node to a layer brings its first copy to board level and into that layer, if that exists,
    and removes the copies from all other layers. -/
theorem copy?_assignLayer_none {n : Node} (hn : b.node? id = some n) (hid : n.id = id) (layer : Option String)
    (j : String) :
    (b.assignLayer id layer).copy? none j = if id = j then some { n with layer } else b.copy? none j := by
  unfold assignLayer
  rw [hn]
  simp only [copy?_storeNode_none, copy?_unmirror_none, hid]

theorem copy?_assignLayer_some {n : Node} (hn : b.node? id = some n) (hid : n.id = id) (layer : Option String)
    (own j : String) :
    (b.assignLayer id layer).copy? (some own) j =
      if id = j then if layer = some own ∧ b.layers.contains own = true then some { n with layer } else none
      else b.copy? (some own) j := by
  unfold assignLayer
  rw [hn]
  simp only [copy?_storeNode_some, copy?_unmirror_some, hid, (sameRest_unmirror b id).contains]
  by_cases hj : id = j <;> simp [hj]

theorem assignLayer_of_node?_eq_none (h : b.node? id = none) (layer : Option String) : b.assignLayer id layer = b := by
  unfold assignLayer
  rw [h]

/-- A copy afterwards was there before, at board level or of another node, or it is the one that is stored. -/
theorem copy?_assignLayer_cases {n m : Node} (hn : b.node? id = some n) {layer shelf : Option String} {j : String}
    (h : (b.assignLayer id layer).copy? shelf j = some m) :
    (b.copy? shelf j = some m ∧ (shelf = none ∨ id ≠ j)) ∨ (n.id = j ∧ m = { n with layer }) := by
  unfold assignLayer at h
  rw [hn] at h
  exact (copy?_storeNode_cases h).imp_left copy?_unmirror_cases

/-- Other nodes keep their copies. -/
theorem copy?_assignLayer_of_ne (hid : id ≠ x) (hne : ∀ n, b.node? id = some n → n.id ≠ x) (layer shelf : Option String) :
    (b.assignLayer id layer).copy? shelf x = b.copy? shelf x := by
  unfold assignLayer
  split
  · rename_i n hn
    exact (copy?_storeNode_of_ne (n := { n with layer }) (hne n hn) shelf).trans (copy?_unmirror_of_ne hid shelf)
  · rfl

theorem node?_assignLayer_of_ne (hid : id ≠ x) (hne : ∀ n, b.node? id = some n → n.id ≠ x) (layer : Option String) :
    (b.assignLayer id layer).node? x = b.node? x :=
  (sameRest_assignLayer b id layer).node?_congr (copy?_assignLayer_of_ne hid hne layer)

theorem Keyed.copy?_assignLayer_ne (hb : b.Keyed) (layer shelf : Option String) (hid : id ≠ x) :
    (b.assignLayer id layer).copy? shelf x = b.copy? shelf x :=
  copy?_assignLayer_of_ne hid (fun _ hn hx => hid ((hb.id_of_node? hn).symm.trans hx)) layer shelf

end Assign

/-! ### Keyed boards -/

theorem Keyed.editNode (hb : b.Keyed) (id : String) {f : Node → Node} (hf : ∀ n, n.id = id → (f n).id = id) :
    (b.editNode id f).Keyed := by
  refine keyed_iff.mpr fun shelf j n h => ?_
  rw [copy?_editNode] at h
  split at h
  · rename_i hj
    obtain ⟨m, hm, rfl⟩ := Option.map_eq_some_iff.mp h
    exact (hf m ((keyed_iff.mp hb shelf j m hm).trans hj.symm)).trans hj
  · exact keyed_iff.mp hb shelf j n h

theorem Keyed.unmirror (hb : b.Keyed) (id : String) : (b.unmirror id).Keyed :=
  keyed_iff.mpr fun shelf j n h => keyed_iff.mp hb shelf j n (copy?_unmirror_cases h).1

theorem Keyed.storeNode (hb : b.Keyed) (n : Node) : (b.storeNode n).Keyed := by
  refine keyed_iff.mpr fun shelf j m h => ?_
  rcases copy?_storeNode_cases h with h | ⟨hj, rfl⟩
  · exact keyed_iff.mp hb shelf j m h
  · exact hj

theorem Keyed.assignLayer (hb : b.Keyed) (id : String) (layer : Option String) : (b.assignLayer id layer).Keyed := by
  unfold Board.assignLayer
  split
  · exact (hb.unmirror id).storeNode _
  · exact hb

theorem Keyed.assignLayers (hb : b.Keyed) (ids : List String) (layer : Option String) :
    (b.assignLayers ids layer).Keyed :=
  board_assignLayers hb (fun _ id hb => hb.assignLayer id layer) ids

/-- So do the nodes that are not among several that are assigned. -/
theorem Keyed.copy?_assignLayers_of_notMem (hb : b.Keyed) {ids : List String} (hx : x ∉ ids) (layer shelf : Option String) :
    (b.assignLayers ids layer).copy? shelf x = b.copy? shelf x := by
  unfold Board.assignLayers
  induction ids generalizing b with
  | nil => rfl
  | cons id ids ih =>
    obtain ⟨hne, hx⟩ := not_or.mp (List.mem_cons.not.mp hx)
    exact (ih (hb.assignLayer id layer) hx).trans (hb.copy?_assignLayer_ne layer shelf (Ne.symm hne))

/-! ### Layers -/

/-- A layer under an id of its own. -/
def namedLayer (b : Board) (l : Layer) : Layer :=
  if l.id = "" then { l with id := freshId b.takenIds "layer" } else l

/-- A layer as it is stored: under an id of its own, and with the copies that the layer of that id has. -/
def storedLayer (b : Board) (l : Layer) : Layer :=
  match b.layers.get? (b.namedLayer l).id with
  | some existing => { b.namedLayer l with nodes := existing.nodes }
  | none => b.namedLayer l

theorem id_storedLayer (b : Board) (l : Layer) : (b.storedLayer l).id = (b.namedLayer l).id := by
  unfold storedLayer
  split <;> rfl

theorem nodes_storedLayer (b : Board) (l : Layer) :
    (b.storedLayer l).nodes =
      match b.layers.get? (b.storedLayer l).id with
      | some existing => existing.nodes
      | none => l.nodes := by
  rw [id_storedLayer]
  unfold storedLayer
  split
  · rfl
  · unfold namedLayer
    split <;> rfl

/-- Stores a layer, its members not yet moved into it. -/
def storeLayer (b : Board) (l : Layer) : Board :=
  { b with layers := b.layers.insert (b.storedLayer l).id (b.storedLayer l) }

/-- A new layer adds only the copies that it brings; one that is there already keeps its own. -/
theorem copy?_storeLayer_some (b : Board) (l : Layer) (layer x : String) :
    (b.storeLayer l).copy? (some layer) x =
      if (b.storedLayer l).id = layer then (b.storedLayer l).nodes.get? x else b.copy? (some layer) x := by
  simp only [copy?, storeLayer, KeyMap.get?_insert]
  split <;> rfl

theorem copy?_dissolveLayer_some (b : Board) (id : String) (parent : Option String) (layer x : String) :
    (b.dissolveLayer id parent).copy? (some layer) x = if id = layer then none else b.copy? (some layer) x := by
  simp only [copy?, dissolveLayer, KeyMap.get?_erase, KeyMap.get?_mapValues]
  split
  · rfl
  · cases b.layers.get? layer with
    | none => rfl
    | some l =>
      show ((if l.parent = some id then { l with parent } else l).nodes.get? x) = l.nodes.get? x
      split <;> rfl

theorem Keyed.dissolveLayer (hb : b.Keyed) (id : String) (parent : Option String) : (b.dissolveLayer id parent).Keyed := by
  refine keyed_iff.mpr fun shelf j n hn => ?_
  cases shelf with
  | none => exact hb.nodes j n hn
  | some layer =>
    rw [copy?_dissolveLayer_some] at hn
    split at hn
    · cases hn
    · exact keyed_iff.mp hb _ j n hn

theorem upsertLayer_eq (b : Board) (l : Layer) (members : List String) :
    b.upsertLayer l members =
      .given b (b.needLayer? l.parent) fun _ => .given b (b.needNodes members) fun _ =>
        let b' := (b.storeLayer l).assignLayers members (some (b.storedLayer l).id)
        ⟨b', (b'.needLayer (b.storedLayer l).id).map .storedLayer⟩ := rfl

end Workboard.Board
