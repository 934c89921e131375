import Workboard.Proofs.FreshId
import Workboard.Proofs.Mirrors

/-! Sound boards.

Everything on a sound board is stored under its own id, a layer has copies of just the nodes that it owns,
whatever is named as a layer exists, and no layer is inside itself. The first half of this is said node by
node (`Board.Filed`), through the node's copies; the other half reads nothing of the nodes
(`Board.Framed`), so changes of nodes keep it. This file holds the invariant and how the elementary changes
keep it. -/

namespace Workboard

namespace Board

variable {b b' : Board} {x : String}

/-- A layer is directly inside another. -/
def Inside (b : Board) (layer parent : String) : Prop := ∃ l, b.layers.get? layer = some l ∧ l.parent = some parent

/-- The node of an id is stored under it, with its pins under theirs; its layer exists and is the only one
    that has a copy of it, the same as at board level. -/
structure Filed (b : Board) (x : String) : Prop where
  id : ∀ n, b.copy? none x = some n → n.id = x
  pins : ∀ n, b.copy? none x = some n → n.pins.Keyed Pin.id
  layer : ∀ n layer, b.copy? none x = some n → n.layer = some layer → b.layers.contains layer = true
  mirror : ∀ layer n, b.copy? (some layer) x = some n ↔ b.copy? none x = some n ∧ n.layer = some layer

/-- Layers, boundary pins, variables and comments are stored under their ids, the layers that comments and
    layers name exist, and the parents of layers run in no cycle. -/
structure Framed (b : Board) : Prop where
  layers : b.layers.Keyed Layer.id
  layerPins : ∀ layer l, b.layers.get? layer = some l → l.pins.Keyed Pin.id
  vars : b.vars.Keyed Variable.id
  comments : b.comments.Keyed Comment.id
  commentLayers : ∀ id c layer, b.comments.get? id = some c → c.layer = some layer → b.layers.contains layer = true
  parents : ∀ layer parent, b.Inside layer parent → b.layers.contains parent = true
  acyclic : ∀ layer, ¬ Relation.TransGen b.Inside layer layer

/-- Everything is where it belongs. -/
structure Sound (b : Board) : Prop extends Framed b where
  filed : ∀ x, b.Filed x

theorem Sound.keyed (h : b.Sound) : b.Keyed := by
  refine keyed_iff.mpr fun shelf x n hn => ?_
  cases shelf with
  | none => exact (h.filed x).id n hn
  | some layer => exact (h.filed x).id n (((h.filed x).mirror layer n).mp hn).1

/-- A node is found at board level. -/
theorem Filed.node? (h : b.Filed x) : b.node? x = b.copy? none x := by
  cases hn : b.node? x with
  | none =>
    cases hc : b.copy? none x with
    | none => rfl
    | some n =>
      rw [node?_of_copy?_none hc] at hn
      cases hn
  | some n =>
    obtain ⟨shelf, hc⟩ := copy?_of_node? hn
    cases shelf with
    | none => exact hc.symm
    | some layer => exact (((h.mirror layer n).mp hc).1).symm

/-- A layer is not its own parent. -/
theorem Framed.parent_ne (h : b.Framed) {layer parent : String} (hin : b.Inside layer parent) : parent ≠ layer := by
  rintro rfl
  exact h.acyclic parent (Relation.TransGen.single hin)

theorem Filed.mirrors (h : b.Filed x) : b.Mirrors x := ⟨h.id, h.pins, fun layer n _ => h.mirror layer n⟩

/-- A node with its mirrors is filed if its layer exists. -/
theorem Mirrors.filed (h : b.Mirrors x)
    (hlayer : ∀ n layer, b.copy? none x = some n → n.layer = some layer → b.layers.contains layer = true) : b.Filed x where
  id := h.id
  pins := h.pins
  layer := hlayer
  mirror layer n :=
    ⟨fun hn => (h.mirror layer n (contains_of_copy? hn)).mp hn,
      fun hn => (h.mirror layer n (hlayer n layer hn.1 hn.2)).mpr hn⟩

/-- An id without a copy anywhere. -/
theorem Filed.of_copy?_none (h : ∀ shelf, b.copy? shelf x = none) : b.Filed x :=
  (Mirrors.of_copy?_none h).filed fun n layer hn => by
    rw [h] at hn
    cases hn

/-- A board with nothing on it is sound. -/
theorem sound_blank (id name : String) : (blank id name).Sound where
  layers := KeyMap.Keyed.empty
  layerPins layer l hl := by cases hl
  vars := KeyMap.Keyed.empty
  comments := KeyMap.Keyed.empty
  commentLayers id c layer hc := by cases hc
  parents layer parent hin := by
    obtain ⟨l, hl, -⟩ := hin
    cases hl
  acyclic layer hcycle := by
    obtain ⟨parent, ⟨l, hl, -⟩, -⟩ := Relation.TransGen.head'_iff.mp hcycle
    cases hl
  filed x := Filed.of_copy?_none fun shelf => by cases shelf <;> rfl

/-! ### The frame -/

theorem SameRest.inside (h : SameRest b b') {layer parent : String} (hin : b'.Inside layer parent) :
    b.Inside layer parent := by
  obtain ⟨l', hl', hp⟩ := hin
  obtain ⟨l, hl, he⟩ := h.layer hl'
  rw [he] at hp
  exact ⟨l, hl, hp⟩

theorem Framed.of_sameRest (h : b.Framed) (hr : SameRest b b') : b'.Framed where
  layers layer l' hl' := by
    obtain ⟨l, hl, he⟩ := hr.layer hl'
    rw [he]
    exact h.layers layer l hl
  layerPins layer l' hl' := by
    obtain ⟨l, hl, he⟩ := hr.layer hl'
    rw [he]
    exact h.layerPins layer l hl
  vars := hr.vars ▸ h.vars
  comments := hr.comments ▸ h.comments
  commentLayers id c layer hc hl := by
    rw [hr.comments] at hc
    rw [hr.contains]
    exact h.commentLayers id c layer hc hl
  parents layer parent hin := by
    rw [hr.contains]
    exact h.parents layer parent (hr.inside hin)
  acyclic layer hcycle := h.acyclic layer (Relation.TransGen.mono (fun _ _ hin => hr.inside hin) _ _ hcycle)

/-! ### Nodes -/

theorem Filed.of_copy?_eq (h : b.Filed x) (he : ∀ shelf, b'.copy? shelf x = b.copy? shelf x)
    (hc : ∀ layer, b.layers.contains layer = true → b'.layers.contains layer = true) : b'.Filed x where
  id n hn := h.id n ((he none).symm.trans hn)
  pins n hn := h.pins n ((he none).symm.trans hn)
  layer n layer hn hl := hc layer (h.layer n layer ((he none).symm.trans hn) hl)
  mirror layer n := by
    rw [he, he]
    exact h.mirror layer n

/-- A node that only other nodes' changes touch stays filed. -/
theorem Filed.of_sameRest (h : b.Filed x) (hr : SameRest b b') (he : ∀ shelf, b'.copy? shelf x = b.copy? shelf x) :
    b'.Filed x := h.of_copy?_eq he fun layer hl => (hr.contains layer).trans hl

theorem Filed.editNode_self (h : b.Filed x) {f : Node → Node}
    (hf : ∀ n, b.copy? none x = some n → (f n).id = n.id ∧ (f n).layer = n.layer ∧ (f n).pins.Keyed Pin.id) :
    (b.editNode x f).Filed x := by
  refine (h.mirrors.editNode_self hf).filed fun n' layer hn' hl => ?_
  rw [copy?_editNode, if_pos rfl] at hn'
  obtain ⟨n, hn, rfl⟩ := Option.map_eq_some_iff.mp hn'
  rw [(sameRest_editNode b x f).contains]
  exact h.layer n layer hn ((hf n hn).2.1.symm.trans hl)

theorem Sound.editNode (h : b.Sound) (id : String) {f : Node → Node}
    (hf : ∀ n, b.copy? none id = some n → (f n).id = n.id ∧ (f n).layer = n.layer ∧ (f n).pins.Keyed Pin.id) :
    (b.editNode id f).Sound where
  toFramed := h.toFramed.of_sameRest (sameRest_editNode b id f)
  filed x := by
    by_cases hx : id = x
    · subst hx
      exact (h.filed id).editNode_self hf
    · exact (h.filed x).of_sameRest (sameRest_editNode b id f) fun shelf => by rw [copy?_editNode, if_neg hx]

theorem Sound.editNode_harmless (h : b.Sound) (id : String) {f : Node → Node} (hf : Node.Harmless f) :
    (b.editNode id f).Sound :=
  h.editNode id fun n hn => ⟨hf.id n, hf.layer n, hf.pins n ((h.filed id).pins n hn)⟩

theorem Sound.editNodes (h : b.Sound) (ids : List String) {f : Node → Node} (hf : Node.Harmless f) :
    (b.editNodes ids f).Sound :=
  board_editNodes h (fun _ id h => h.editNode_harmless id hf) ids

theorem Sound.dropNode (h : b.Sound) (id : String) : (b.dropNode id).Sound where
  toFramed := h.toFramed.of_sameRest (sameRest_dropNode b id)
  filed x := by
    by_cases hx : id = x
    · exact Filed.of_copy?_none fun shelf => by rw [copy?_dropNode, if_pos hx]
    · exact (h.filed x).of_sameRest (sameRest_dropNode b id) fun shelf => by rw [copy?_dropNode, if_neg hx]

/-- A node of which no layer has a copy is stored properly. -/
theorem filed_storeNode {n : Node} (hno : ∀ layer, b.copy? (some layer) n.id = none) (hpins : n.pins.Keyed Pin.id)
    (hlayer : ∀ layer, n.layer = some layer → b.layers.contains layer = true) : (b.storeNode n).Filed n.id := by
  refine (mirrors_storeNode hno hpins).filed fun m layer hm hl => ?_
  rw [copy?_storeNode_none, if_pos rfl] at hm
  cases hm
  rw [(sameRest_storeNode b n).contains]
  exact hlayer layer hl

theorem Sound.storeNode (h : b.Sound) {n : Node} (hno : ∀ layer, b.copy? (some layer) n.id = none)
    (hpins : n.pins.Keyed Pin.id) (hlayer : ∀ layer, n.layer = some layer → b.layers.contains layer = true) :
    (b.storeNode n).Sound where
  toFramed := h.toFramed.of_sameRest (sameRest_storeNode b n)
  filed x := by
    by_cases hx : n.id = x
    · subst hx
      exact filed_storeNode hno hpins hlayer
    · exact (h.filed x).of_sameRest (sameRest_storeNode b n) (copy?_storeNode_of_ne hx)

theorem Sound.assignLayer (h : b.Sound) (id : String) {layer : Option String}
    (hlayer : ∀ l, layer = some l → b.layers.contains l = true) : (b.assignLayer id layer).Sound where
  toFramed := h.toFramed.of_sameRest (sameRest_assignLayer b id layer)
  filed x := by
    by_cases hx : id = x
    · subst hx
      cases hn : b.node? id with
      | none =>
        rw [assignLayer_of_node?_eq_none hn]
        exact h.filed id
      | some n =>
        have htop := (h.filed id).node?.symm.trans hn
        obtain rfl := (h.filed id).id n htop
        unfold Board.assignLayer
        rw [hn]
        refine filed_storeNode (n := { n with layer }) (fun own => ?_) ((h.filed n.id).pins n htop) fun l hl => ?_
        · rw [copy?_unmirror_some, if_pos rfl]
        · rw [(sameRest_unmirror b n.id).contains]
          exact hlayer l hl
    · exact (h.filed x).of_sameRest (sameRest_assignLayer b id layer) fun shelf =>
        h.keyed.copy?_assignLayer_ne layer shelf hx

theorem Sound.assignLayers (h : b.Sound) (ids : List String) {layer : Option String}
    (hlayer : ∀ l, layer = some l → b.layers.contains l = true) : (b.assignLayers ids layer).Sound := by
  unfold Board.assignLayers
  induction ids generalizing b with
  | nil => exact h
  | cons id ids ih =>
    exact ih (h.assignLayer id hlayer) fun l hl => ((sameRest_assignLayer b id layer).contains l).trans (hlayer l hl)

/-- Nodes that are assigned to a layer are in it afterwards. -/
theorem Keyed.layer_assignLayers (hb : b.Keyed) {ids : List String} (hx : x ∈ ids) {layer : Option String} {n : Node}
    (hn : (b.assignLayers ids layer).copy? none x = some n) : n.layer = layer := by
  unfold Board.assignLayers at hn
  induction ids generalizing b with
  | nil => cases hx
  | cons id ids ih =>
    have hkeyed := hb.assignLayer id layer
    by_cases hmem : x ∈ ids
    · exact ih hkeyed hmem hn
    · -- This is the last time that the node is assigned.
      obtain rfl := (List.mem_cons.mp hx).resolve_right hmem
      have hlast : (b.assignLayer x layer).copy? none x = some n :=
        (hkeyed.copy?_assignLayers_of_notMem hmem layer none).symm.trans hn
      cases hm : b.node? x with
      | none =>
        rw [assignLayer_of_node?_eq_none hm] at hlast
        rw [node?_of_copy?_none hlast] at hm
        cases hm
      | some m =>
        rw [copy?_assignLayer_none hm (hb.id_of_node? hm), if_pos rfl] at hlast
        cases hlast
        rfl

/-! ### Layers -/

/-- The board with a layer put in. -/
def putLayer (b : Board) (l : Layer) : Board := { b with layers := b.layers.insert l.id l }

section PutLayer
variable {l : Layer}

theorem get?_layers_putLayer (b : Board) (l : Layer) (layer : String) :
    (b.putLayer l).layers.get? layer = if l.id = layer then some l else b.layers.get? layer :=
  KeyMap.get?_insert _ _ _ _

theorem contains_putLayer {layer : String} (h : b.layers.contains layer = true) :
    (b.putLayer l).layers.contains layer = true := by
  unfold putLayer
  rw [KeyMap.contains_insert, h, Bool.or_true]

theorem inside_putLayer {layer parent : String} (h : (b.putLayer l).Inside layer parent) :
    (layer = l.id ∧ l.parent = some parent) ∨ (layer ≠ l.id ∧ b.Inside layer parent) := by
  obtain ⟨l', hl', hp⟩ := h
  rw [get?_layers_putLayer] at hl'
  split at hl'
  · rename_i he
    cases hl'
    exact Or.inl ⟨he.symm, hp⟩
  · rename_i hne
    exact Or.inr ⟨fun e => hne e.symm, l', hl', hp⟩

/-- A new layer is a leaf, so it closes no cycle. -/
theorem Framed.acyclic_putLayer (h : b.Framed) (hnew : b.layers.contains l.id = false)
    (hparent : ∀ parent, l.parent = some parent → b.layers.contains parent = true) (layer : String) :
    ¬ Relation.TransGen (b.putLayer l).Inside layer layer := by
  -- Whatever is the parent of a layer was there before.
  have hold : ∀ {layer parent}, (b.putLayer l).Inside layer parent → parent ≠ l.id := by
    rintro layer parent hin rfl
    have hc : b.layers.contains l.id = true := by
      rcases inside_putLayer hin with ⟨-, hp⟩ | ⟨-, hin⟩
      · exact hparent _ hp
      · exact h.parents _ _ hin
    rw [hnew] at hc
    cases hc
  have hchain : ∀ {parent}, Relation.TransGen (b.putLayer l).Inside layer parent →
      parent ≠ l.id ∧ (layer ≠ l.id → Relation.TransGen b.Inside layer parent) := by
    intro parent hin
    induction hin with
    | single hin =>
      refine ⟨hold hin, fun hne => ?_⟩
      exact Relation.TransGen.single ((inside_putLayer hin).resolve_left fun e => hne e.1).2
    | tail _ hin ih =>
      refine ⟨hold hin, fun hne => ?_⟩
      exact (ih.2 hne).tail ((inside_putLayer hin).resolve_left fun e => ih.1 e.1).2
  intro hcycle
  obtain ⟨hne, hcycle⟩ := hchain hcycle
  exact h.acyclic layer (hcycle hne)

/-- A new layer has no nodes yet, and every node stays filed. -/
theorem Filed.putLayer (h : b.Filed x) (hnew : b.layers.contains l.id = false) (hnodes : l.nodes = ∅) :
    (b.putLayer l).Filed x := by
  have hempty : ∀ n, b.copy? none x = some n → n.layer ≠ some l.id := fun n hn hl => by
    have hc := h.layer n l.id hn hl
    rw [hnew] at hc
    cases hc
  refine ⟨h.id, h.pins, fun n layer hn hl => contains_putLayer (h.layer n layer hn hl), fun layer n => ?_⟩
  show ((b.putLayer l).layers.get? layer).bind (·.nodes.get? x) = some n ↔ b.copy? none x = some n ∧ n.layer = some layer
  rw [get?_layers_putLayer]
  split
  · rename_i he
    subst he
    rw [Option.bind_some, hnodes]
    constructor
    · intro hn
      cases hn
    · rintro ⟨hn, hl⟩
      exact absurd hl (hempty n hn)
  · exact h.mirror layer n

theorem Sound.putLayer (h : b.Sound) (hnew : b.layers.contains l.id = false) (hnodes : l.nodes = ∅)
    (hpins : l.pins.Keyed Pin.id) (hparent : ∀ parent, l.parent = some parent → b.layers.contains parent = true) :
    (b.putLayer l).Sound where
  layers := h.layers.insert l
  layerPins layer l' hl' := by
    rw [get?_layers_putLayer] at hl'
    split at hl'
    · cases hl'
      exact hpins
    · exact h.layerPins layer l' hl'
  vars := h.vars
  comments := h.comments
  commentLayers id c layer hc hl := contains_putLayer (h.commentLayers id c layer hc hl)
  parents layer parent hin := by
    refine contains_putLayer ?_
    rcases inside_putLayer hin with ⟨-, hp⟩ | ⟨-, hin⟩
    · exact hparent parent hp
    · exact h.parents layer parent hin
  acyclic := h.toFramed.acyclic_putLayer hnew hparent
  filed x := (h.filed x).putLayer hnew hnodes

end PutLayer

section DissolveLayer
variable {id : String} {parent : Option String}

/-- A layer that stays keeps all but the removed layer as its parent. -/
theorem get?_layers_dissolveLayer {layer : String} {l' : Layer}
    (h : (b.dissolveLayer id parent).layers.get? layer = some l') :
    layer ≠ id ∧ ∃ l, b.layers.get? layer = some l ∧ l'.id = l.id ∧ l'.pins = l.pins ∧
      l'.parent = if l.parent = some id then parent else l.parent := by
  simp only [dissolveLayer, KeyMap.get?_erase, KeyMap.get?_mapValues] at h
  split at h
  · cases h
  · rename_i hne
    obtain ⟨l, hl, rfl⟩ := Option.map_eq_some_iff.mp h
    refine ⟨fun e => hne e.symm, l, hl, ?_⟩
    split <;> exact ⟨rfl, rfl, rfl⟩

theorem contains_dissolveLayer {layer : String} (hne : layer ≠ id) (h : b.layers.contains layer = true) :
    (b.dissolveLayer id parent).layers.contains layer = true := by
  obtain ⟨l, hl⟩ := KeyMap.contains_iff.mp h
  refine KeyMap.contains_iff.mpr ⟨if l.parent = some id then { l with parent } else l, ?_⟩
  simp only [dissolveLayer, KeyMap.get?_erase, KeyMap.get?_mapValues, if_neg hne.symm, hl, Option.map_some]

/-- A layer's new parent was its parent before, or that of the removed layer in between. -/
theorem Framed.inside_dissolveLayer (h : b.Framed) {l : Layer} (hl : b.layers.get? id = some l) {layer outer : String}
    (hin : (b.dissolveLayer id l.parent).Inside layer outer) :
    outer ≠ id ∧ b.layers.contains outer = true ∧ Relation.TransGen b.Inside layer outer := by
  obtain ⟨l', hl', hp⟩ := hin
  obtain ⟨-, l₀, hl₀, -, -, hparent⟩ := get?_layers_dissolveLayer hl'
  rw [hparent] at hp
  split at hp
  · rename_i hid
    have hout : b.Inside id outer := ⟨l, hl, hp⟩
    exact ⟨h.parent_ne hout, h.parents id outer hout, (Relation.TransGen.single ⟨l₀, hl₀, hid⟩).tail hout⟩
  · rename_i hid
    have hout : b.Inside layer outer := ⟨l₀, hl₀, hp⟩
    refine ⟨fun e => hid (e ▸ hp), h.parents layer outer hout, Relation.TransGen.single hout⟩

theorem Filed.dissolveLayer (h : b.Filed x) (hempty : ∀ n, b.copy? none x = some n → n.layer ≠ some id) :
    (b.dissolveLayer id parent).Filed x := by
  refine ⟨h.id, h.pins, fun n layer hn hl => ?_, fun layer n => ?_⟩
  · have hne : layer ≠ id := fun e => hempty n hn (e ▸ hl)
    exact contains_dissolveLayer hne (h.layer n layer hn hl)
  · rw [copy?_dissolveLayer_some]
    split
    · rename_i he
      subst he
      constructor
      · intro hn
        cases hn
      · rintro ⟨hn, hl⟩
        exact absurd hl (hempty n hn)
    · exact h.mirror layer n

/-- A layer that owns no node is removed, and its parent takes its place. -/
theorem Sound.dissolveLayer (h : b.Sound) {l : Layer} (hl : b.layers.get? id = some l)
    (hempty : ∀ x n, b.copy? none x = some n → n.layer ≠ some id) : (b.dissolveLayer id l.parent).Sound where
  layers layer l' hl' := by
    obtain ⟨-, l₀, hl₀, hid, -, -⟩ := get?_layers_dissolveLayer hl'
    exact hid.trans (h.layers layer l₀ hl₀)
  layerPins layer l' hl' := by
    obtain ⟨-, l₀, hl₀, -, hpins, -⟩ := get?_layers_dissolveLayer hl'
    rw [hpins]
    exact h.layerPins layer l₀ hl₀
  vars := h.vars
  comments := h.comments.mapValues fun k c => by split <;> rfl
  commentLayers k c layer hc hlayer := by
    simp only [Board.dissolveLayer, KeyMap.get?_mapValues] at hc
    obtain ⟨c₀, hc₀, rfl⟩ := Option.map_eq_some_iff.mp hc
    split at hlayer
    · have hin : b.Inside id layer := ⟨l, hl, hlayer⟩
      exact contains_dissolveLayer (h.parent_ne hin) (h.parents id layer hin)
    · rename_i hne
      exact contains_dissolveLayer (fun e => hne (e ▸ hlayer)) (h.commentLayers k c₀ layer hc₀ hlayer)
  parents layer outer hin := by
    obtain ⟨hne, hc, -⟩ := h.toFramed.inside_dissolveLayer hl hin
    exact contains_dissolveLayer hne hc
  acyclic layer hcycle := by
    refine h.acyclic layer (Relation.TransGen.closed (fun _ _ hin => ?_) _ _ hcycle)
    exact (h.toFramed.inside_dissolveLayer hl hin).2.2
  filed x := (h.filed x).dissolveLayer (hempty x)

end DissolveLayer

end Board

end Workboard
