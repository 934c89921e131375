import Workboard.Proofs.Conservation
import Workboard.Proofs.InStep

/-! Layers as mirrors of the board.

A board is mirrored if everything on it is stored under its own id and each layer has copies of just the nodes that it owns.
Mutations keep it so, but for two that bring a whole node or layer with data of its own: a node is replaced where its copies
are, whatever layer the new one names, and a new layer is stored with the copies that it brings. What these have to bring is
said by `Board.Accords`, and nothing less would do (`Board.execute_mirrored_iff`). -/

namespace Workboard

/-- Whether a mutation brings a whole node or layer. -/
def Mutation.bringsWhole : Mutation → Bool
  | .updateNode .. | .upsertLayer .. => true
  | _ => false

namespace Board

variable {b b' : Board} {x id : String} {m : Mutation} {r : Receipt}

/-- Layers, boundary pins, variables and comments are stored under their ids. -/
structure Indexed (b : Board) : Prop where
  layers : b.layers.Keyed Layer.id
  layerPins : ∀ layer l, b.layers.get? layer = some l → l.pins.Keyed Pin.id
  vars : b.vars.Keyed Variable.id
  comments : b.comments.Keyed Comment.id

/-- Everything is stored under its own id, and the layers mirror the nodes at board level. -/
structure Mirrored (b : Board) : Prop extends Indexed b where
  nodes : ∀ x, b.Mirrors x

/-- What a mutation has to bring for the board to be mirrored afterwards. -/
def Accords (b : Board) : Mutation → Prop
  | .updateNode _ n => n.pins.Keyed Pin.id ∧ ∀ old, b.nodes.get? n.id = some old →
      ∀ layer, b.layers.contains layer = true → (n.layer = some layer ↔ old.layer = some layer)
  | .upsertLayer l members => l.pins.Keyed Pin.id ∧ (b.layers.contains (b.storedLayer l).id = false →
      ∀ x ∉ members, ∀ n, l.nodes.get? x = some n ↔ b.nodes.get? x = some n ∧ n.layer = some (b.storedLayer l).id)
  | _ => True

/-- A node at board level, under its id. -/
def Rooted (b : Board) (x : String) : Prop := ∃ n, b.copy? none x = some n ∧ n.id = x ∧ n.pins.Keyed Pin.id

theorem Mirrored.inStep (h : b.Mirrored) : b.InStep where
  toKeyed := keyed_iff.mpr fun shelf x n hn => by
    cases shelf with
    | none => exact (h.nodes x).id n hn
    | some layer => exact (h.nodes x).id n ((h.nodes x).top hn)
  same layer x n hn := (h.nodes x).top hn

theorem Mirrored.rooted (h : b.Mirrored) {n : Node} (hn : b.node? x = some n) : b.Rooted x := by
  rw [h.inStep.node?] at hn
  exact ⟨n, hn, (h.nodes x).id n hn, (h.nodes x).pins n hn⟩

/-! ### Changes of nodes -/

theorem Indexed.of_sameRest (h : b.Indexed) (hr : SameRest b b') : b'.Indexed where
  layers layer l' hl' := by
    obtain ⟨l, hl, he⟩ := hr.layer hl'
    rw [he]
    exact h.layers layer l hl
  layerPins layer l' hl' := by
    obtain ⟨l, hl, he⟩ := hr.layer hl'
    rw [he]
    exact h.layerPins layer l hl
  vars := hr.vars ▸ h.vars
  comments := hr.comments ▸ h.comments

theorem Mirrored.of_sameRest (h : b.Mirrored) (hr : SameRest b b') (hnodes : ∀ x, b'.Mirrors x) : b'.Mirrored :=
  ⟨h.toIndexed.of_sameRest hr, hnodes⟩

theorem Mirrored.editNode (h : b.Mirrored) (id : String) {f : Node → Node} (hf : Node.Harmless f) :
    (b.editNode id f).Mirrored := by
  refine h.of_sameRest (sameRest_editNode b id f) fun x => ?_
  by_cases hx : id = x
  · subst hx
    exact (h.nodes id).editNode_self fun n hn => ⟨hf.id n, hf.layer n, hf.pins n ((h.nodes id).pins n hn)⟩
  · exact (h.nodes x).of_sameRest (sameRest_editNode b id f) fun shelf => by rw [copy?_editNode, if_neg hx]

theorem Mirrored.editNodes (h : b.Mirrored) (ids : List String) {f : Node → Node} (hf : Node.Harmless f) :
    (b.editNodes ids f).Mirrored :=
  board_editNodes h (fun _ id h => h.editNode id hf) ids

theorem Mirrored.dropNode (h : b.Mirrored) (id : String) : (b.dropNode id).Mirrored := by
  refine h.of_sameRest (sameRest_dropNode b id) fun x => ?_
  by_cases hx : id = x
  · exact Mirrors.of_copy?_none fun shelf => by rw [copy?_dropNode, if_pos hx]
  · exact (h.nodes x).of_sameRest (sameRest_dropNode b id) fun shelf => by rw [copy?_dropNode, if_neg hx]

theorem Mirrored.storeNode (h : b.Mirrored) {n : Node} (hno : ∀ layer, b.copy? (some layer) n.id = none)
    (hpins : n.pins.Keyed Pin.id) : (b.storeNode n).Mirrored := by
  refine h.of_sameRest (sameRest_storeNode b n) fun x => ?_
  by_cases hx : n.id = x
  · subst hx
    exact mirrors_storeNode hno hpins
  · exact (h.nodes x).of_sameRest (sameRest_storeNode b n) (copy?_storeNode_of_ne hx)

theorem Mirrored.removeNode (h : b.Mirrored) (id : String) : (b.removeNode id).board.Mirrored :=
  Effect.board_given h fun n _ =>
    (h.dropNode id).editNodes ((b.dropNode id).neighbours n.pins.keys) (Node.harmless_disconnectFrom n.pins.keys)

theorem Mirrored.removeNodes (h : b.Mirrored) (ids : List String) : (b.removeNodes ids).1.Mirrored :=
  board_removeNodes h fun _ id _ h => h.removeNode id

/-! ### Changes of layers -/

section
variable {layer : Option String}

theorem Rooted.copy?_assignLayer (h : b.Rooted id) (hid : id ≠ x) (layer shelf : Option String) :
    (b.assignLayer id layer).copy? shelf x = b.copy? shelf x := by
  obtain ⟨n, hn, hroot, -⟩ := h
  refine copy?_assignLayer_of_ne hid (fun m hm => ?_) layer shelf
  rw [node?_of_copy?_none hn] at hm
  cases hm
  rwa [hroot]

theorem Rooted.assignLayer (h : b.Rooted id) (hx : b.Rooted x) (layer : Option String) : (b.assignLayer id layer).Rooted x := by
  by_cases hid : id = x
  · subst hid
    obtain ⟨n, hn, hroot, hpins⟩ := h
    refine ⟨{ n with layer }, ?_, hroot, hpins⟩
    rw [copy?_assignLayer_none (node?_of_copy?_none hn) hroot, if_pos rfl]
  · obtain ⟨n, hn, hroot⟩ := hx
    exact ⟨n, (h.copy?_assignLayer hid layer none).trans hn, hroot⟩

theorem copy?_assignLayers_of_rooted {ids : List String} (h : ∀ id ∈ ids, b.Rooted id) (hx : x ∉ ids)
    (layer shelf : Option String) : (b.assignLayers ids layer).copy? shelf x = b.copy? shelf x := by
  unfold Board.assignLayers
  induction ids generalizing b with
  | nil => rfl
  | cons id ids ih =>
    obtain ⟨hne, hx⟩ := not_or.mp (List.mem_cons.not.mp hx)
    have hroot := h id List.mem_cons_self
    refine (ih (fun j hj => hroot.assignLayer (h j (List.mem_cons_of_mem id hj)) layer) hx).trans ?_
    exact hroot.copy?_assignLayer (Ne.symm hne) layer shelf

/-- What is found under an id is at board level, under its id. -/
def Anchored (b : Board) (x : String) : Prop := ∀ n, b.node? x = some n → b.copy? none x = some n ∧ n.id = x

theorem InStep.anchored (h : b.InStep) (x : String) : b.Anchored x := fun _ hn =>
  ⟨(h.node? x).symm.trans hn, h.toKeyed.id_of_node? hn⟩

theorem Rooted.anchored (h : b.Rooted x) : b.Anchored x := by
  obtain ⟨n, hn, hid, -⟩ := h
  intro m hm
  rw [node?_of_copy?_none hn] at hm
  cases hm
  exact ⟨hn, hid⟩

theorem Anchored.copy?_assignLayer (h : b.Anchored id) (layer : Option String) (x : String) :
    (b.assignLayer id layer).copy? none x = if id = x then (b.copy? none x).map ({ · with layer }) else b.copy? none x := by
  cases hn : b.node? id with
  | none =>
    rw [assignLayer_of_node?_eq_none hn]
    split
    · rename_i hx
      subst hx
      cases hc : b.copy? none id with
      | none => rfl
      | some n =>
        rw [node?_of_copy?_none hc] at hn
        cases hn
    · rfl
  | some n =>
    obtain ⟨htop, hid⟩ := h n hn
    rw [copy?_assignLayer_none hn hid]
    split
    · rename_i hx
      rw [← hx, htop]
      rfl
    · rfl

theorem Anchored.assignLayer (h : b.Anchored id) (hx : b.Anchored x) (layer : Option String) :
    (b.assignLayer id layer).Anchored x := by
  intro m hm
  by_cases hid : id = x
  · subst hid
    cases hn : b.node? id with
    | none =>
      rw [assignLayer_of_node?_eq_none hn] at hm ⊢
      exact h m hm
    | some n =>
      obtain ⟨-, hkey⟩ := h n hn
      have htop := copy?_assignLayer_none hn hkey layer id
      rw [if_pos rfl] at htop
      rw [node?_of_copy?_none htop] at hm
      cases hm
      exact ⟨htop, hkey⟩
  · have hne : ∀ n, b.node? id = some n → n.id ≠ x := fun n hn he => hid ((h n hn).2.symm.trans he)
    rw [node?_assignLayer_of_ne hid hne] at hm
    rw [copy?_assignLayer_of_ne hid hne]
    exact hx m hm

/-- Nodes that are assigned to a layer change nothing but their layer, and others nothing at all. -/
theorem copy?_assignLayers_none {ids : List String} (h : ∀ id ∈ ids, b.Anchored id) (layer : Option String) (x : String) :
    (b.assignLayers ids layer).copy? none x =
      if x ∈ ids then (b.copy? none x).map ({ · with layer }) else b.copy? none x := by
  unfold Board.assignLayers
  induction ids generalizing b with
  | nil => simp
  | cons id ids ih =>
    have hid := h id List.mem_cons_self
    rw [List.foldl_cons, ih fun j hj => hid.assignLayer (h j (List.mem_cons_of_mem id hj)) layer, hid.copy?_assignLayer]
    by_cases hx : id = x
    · subst hx
      simp [Function.comp_def]
    · simp [hx, Ne.symm hx]

/-- Nodes that are assigned to a layer have their mirrors afterwards, and others have them still. -/
theorem mirrors_assignLayers {ids : List String} (h : ∀ id ∈ ids, b.Rooted id) (hx : x ∈ ids ∨ b.Mirrors x)
    (layer : Option String) : (b.assignLayers ids layer).Mirrors x := by
  unfold Board.assignLayers
  induction ids generalizing b with
  | nil => exact hx.resolve_left List.not_mem_nil
  | cons id ids ih =>
    have hroot := h id List.mem_cons_self
    refine ih (fun j hj => hroot.assignLayer (h j (List.mem_cons_of_mem id hj)) layer) ?_
    by_cases hid : id = x
    · subst hid
      obtain ⟨n, hn, hkey, hpins⟩ := hroot
      exact Or.inr (mirrors_assignLayer (node?_of_copy?_none hn) hkey hpins layer)
    · refine hx.imp (fun hx => (List.mem_cons.mp hx).resolve_left (Ne.symm hid)) fun hx => ?_
      exact hx.of_sameRest (sameRest_assignLayer b id layer) (hroot.copy?_assignLayer hid layer)

theorem Mirrored.assignLayers (h : b.Mirrored) {ids : List String} (hids : ∀ id ∈ ids, ∃ n, b.node? id = some n)
    (layer : Option String) : (b.assignLayers ids layer).Mirrored := by
  refine h.of_sameRest (sameRest_assignLayers b ids layer) fun x => ?_
  refine mirrors_assignLayers (fun id hid => ?_) (Or.inr (h.nodes x)) layer
  obtain ⟨n, hn⟩ := hids id hid
  exact h.rooted hn

theorem Mirrored.dissolveLayer (h : b.Mirrored) (id : String) (parent : Option String) : (b.dissolveLayer id parent).Mirrored where
  nodes x := by
    refine (h.nodes x).of_copy?_eq rfl fun layer hl => ?_
    obtain ⟨l', hl'⟩ := KeyMap.contains_iff.mp hl
    obtain ⟨hne, l, hl, -⟩ := get?_layers_dissolveLayer hl'
    exact ⟨KeyMap.contains_iff.mpr ⟨l, hl⟩, by rw [copy?_dissolveLayer_some, if_neg hne.symm]⟩
  layers layer l' hl' := by
    obtain ⟨-, l, hl, hid, -, -⟩ := get?_layers_dissolveLayer hl'
    exact hid.trans (h.layers layer l hl)
  layerPins layer l' hl' := by
    obtain ⟨-, l, hl, -, hpins, -⟩ := get?_layers_dissolveLayer hl'
    rw [hpins]
    exact h.layerPins layer l hl
  vars := h.vars
  comments := h.comments.mapValues fun k c => by split <;> rfl

end

theorem pins_storedLayer (b : Board) (l : Layer) : (b.storedLayer l).pins = l.pins := by
  have hnamed : (b.namedLayer l).pins = l.pins := by
    unfold namedLayer
    split <;> rfl
  unfold storedLayer
  split <;> exact hnamed

theorem contains_storeLayer (b : Board) (l : Layer) (layer : String) :
    (b.storeLayer l).layers.contains layer = ((b.storedLayer l).id = layer || b.layers.contains layer) :=
  KeyMap.contains_insert

theorem Indexed.storeLayer (h : b.Indexed) {l : Layer} (hpins : l.pins.Keyed Pin.id) : (b.storeLayer l).Indexed where
  layers := h.layers.insert (b.storedLayer l)
  layerPins layer l' hl' := by
    rw [Board.storeLayer, KeyMap.get?_insert] at hl'
    split at hl'
    · cases hl'
      rwa [pins_storedLayer]
    · exact h.layerPins layer l' hl'
  vars := h.vars
  comments := h.comments

/-- The copies in a layer that is stored, be it new or not. -/
theorem Mirrored.mirrors_storeLayer_iff (h : b.Mirrored) (l : Layer) :
    (b.storeLayer l).Mirrors x ↔ (b.layers.contains (b.storedLayer l).id = false →
      ∀ n, l.nodes.get? x = some n ↔ b.nodes.get? x = some n ∧ n.layer = some (b.storedLayer l).id) := by
  have hcopy := b.copy?_storeLayer_some l (b.storedLayer l).id x
  rw [if_pos rfl, nodes_storedLayer] at hcopy
  constructor
  · intro hafter hnew n
    rw [KeyMap.contains_eq_false_iff.mp hnew] at hcopy
    have hmirror := hafter.mirror (b.storedLayer l).id n (by simp [contains_storeLayer])
    rwa [hcopy] at hmirror
  · intro hbrings
    refine ⟨(h.nodes x).id, (h.nodes x).pins, fun layer n hl => ?_⟩
    show _ ↔ b.copy? none x = some n ∧ _
    by_cases hlayer : (b.storedLayer l).id = layer
    · subst hlayer
      rw [hcopy]
      cases hold : b.layers.get? (b.storedLayer l).id with
      | none => exact hbrings (KeyMap.contains_eq_false_iff.mpr hold) n
      | some existing =>
        have hkept : b.copy? (some (b.storedLayer l).id) x = existing.nodes.get? x := by
          show (b.layers.get? (b.storedLayer l).id).bind _ = _
          rw [hold]
          rfl
        rw [← hkept]
        exact (h.nodes x).mirror _ n (KeyMap.contains_iff.mpr ⟨existing, hold⟩)
    · rw [contains_storeLayer] at hl
      rw [copy?_storeLayer_some, if_neg hlayer]
      exact (h.nodes x).mirror layer n (by simpa [hlayer] using hl)

/-! ### Mutations -/

theorem mirrored_blank (id name : String) : (blank id name).Mirrored where
  nodes x := Mirrors.of_copy?_none fun shelf => by cases shelf <;> rfl
  layers := KeyMap.Keyed.empty
  layerPins layer l hl := by cases hl
  vars := KeyMap.Keyed.empty
  comments := KeyMap.Keyed.empty

/-- The nodes and layers are the same. -/
theorem Mirrored.of_layers (h : b.Mirrored) (hnodes : b'.nodes = b.nodes) (hlayers : b'.layers = b.layers)
    (hvars : b'.vars.Keyed Variable.id) (hcomments : b'.comments.Keyed Comment.id) : b'.Mirrored where
  nodes x := by
    have hcopy : ∀ shelf, b'.copy? shelf x = b.copy? shelf x := fun shelf => by
      unfold copy?
      rw [hnodes, hlayers]
    exact (h.nodes x).of_copy?_eq (hcopy none) fun layer hl => ⟨hlayers ▸ hl, hcopy (some layer)⟩
  layers := hlayers ▸ h.layers
  layerPins := hlayers ▸ h.layerPins
  vars := hvars
  comments := hcomments

theorem mirrored_countChange_iff : b.countChange.Mirrored ↔ b.Mirrored :=
  ⟨fun h => h.of_layers rfl rfl h.vars h.comments, fun h => h.of_layers rfl rfl h.vars h.comments⟩

theorem Mirrored.perform (h : b.Mirrored) (hm : m.bringsWhole = false) : (b.perform m).board.Mirrored := by
  have ends : ∀ (w : Wire) {f g : Pin → Pin}, (∀ p, (f p).id = p.id) → (∀ p, (g p).id = p.id) →
      ((b.editNode w.fromNode (·.editPin w.fromPin f)).editNode w.toNode (·.editPin w.toPin g)).Mirrored :=
    fun w _ _ hf hg => (h.editNode _ (Node.harmless_editPin _ hf)).editNode _ (Node.harmless_editPin _ hg)
  have hmoved : ∀ id goal, (b.editNode id fun n => { n with place := goal }).Mirrored := fun id goal =>
    h.editNode id (Node.harmless_place goal)
  refine board_perform fun b' hb' => ?_
  cases hb' with
  | refused => exact h
  | addNode => exact h.storeNode (fun own => h.inStep.toKeyed.copy?_freshId "node" (some own)) (KeyMap.Keyed.ofList _)
  | removeNode => exact h.removeNode _
  | connect | disconnect => exact ends _ (fun _ => rfl) fun _ => rfl
  | moveNode => exact hmoved _ _
  | @moveInto id target _ goal _ n hn =>
    have hone : ∀ j ∈ [id], ∃ n', (b.editNode id fun n => { n with place := goal }).node? j = some n' := by
      intro j hj
      obtain rfl := List.mem_singleton.mp hj
      rw [(hmoved _ _).inStep.node?, copy?_editNode, if_pos rfl, ← h.inStep.node?, hn]
      exact ⟨_, rfl⟩
    exact (hmoved id goal).assignLayers hone (some target)
  | upsertVariable => exact h.of_layers rfl rfl (h.vars.insert _) h.comments
  | removeVariable => exact h.of_layers rfl rfl (h.vars.erase _) h.comments
  | upsertComment => exact h.of_layers rfl rfl h.vars (h.comments.insert _)
  | removeComment => exact h.of_layers rfl rfl h.vars (h.comments.erase _)
  | addToLayer _ hnodes | removeFromLayer _ hnodes => exact h.assignLayers (fun _ hid => node?_of_needNodes hnodes hid) _
  | removeLayer => exact (h.assignLayers (fun _ hx => Option.isSome_iff_exists.mp (h.inStep.toKeyed.node?_of_mem_membersOf hx)) _).dissolveLayer _ _
  | removeWhole => exact (h.removeNodes _).dissolveLayer _ _
  | removePart => exact h.removeNodes _
  | updateNode | upsertLayer => cases hm

theorem Mirrored.updateNode_iff (h : b.Mirrored) {expected : Option Node} {n : Node}
    (hr : (b.updateNode expected n).result = .ok r) :
    (b.updateNode expected n).board.Mirrored ↔ b.Accords (.updateNode expected n) := by
  obtain ⟨current, hcurrent, heq⟩ := Effect.given_of_ok hr
  change b.updateNode expected n = _ at heq
  rw [heq] at hr ⊢
  split at hr
  · cases hr
  · rename_i hexpected
    rw [if_neg hexpected]
    have hold := needNode_eq_ok.mp hcurrent
    rw [h.inStep.node?] at hold
    have hiff := (h.nodes n.id).replace_iff hold
    constructor
    · intro hafter
      obtain ⟨hpins, hlayer⟩ := hiff.mp (hafter.nodes n.id)
      refine ⟨hpins, fun old hold' layer hl => ?_⟩
      obtain rfl : current = old := Option.some.inj (hold.symm.trans hold')
      exact hlayer layer hl
    · rintro ⟨hpins, hlayer⟩
      refine h.of_sameRest (sameRest_editNode b n.id _) fun x => ?_
      by_cases hx : n.id = x
      · subst hx
        exact hiff.mpr ⟨hpins, hlayer current hold⟩
      · exact (h.nodes x).of_sameRest (sameRest_editNode b n.id _) fun shelf => by rw [copy?_editNode, if_neg hx]

theorem Mirrored.upsertLayer_iff (h : b.Mirrored) {l : Layer} {members : List String}
    (hr : (b.upsertLayer l members).result = .ok r) :
    (b.upsertLayer l members).board.Mirrored ↔ b.Accords (.upsertLayer l members) := by
  rw [board_upsertLayer hr]
  have hroots : ∀ id ∈ members, (b.storeLayer l).Rooted id := by
    intro id hid
    rw [upsertLayer_eq] at hr
    obtain ⟨_, -, heq⟩ := Effect.given_of_ok hr
    rw [heq] at hr
    obtain ⟨_, hmembers, -⟩ := Effect.given_of_ok hr
    obtain ⟨n, hn⟩ := node?_of_needNodes hmembers hid
    exact h.rooted hn
  have hrest := sameRest_assignLayers (b.storeLayer l) members (some (b.storedLayer l).id)
  have hstored : (b.storeLayer l).layers.get? (b.storedLayer l).id = some (b.storedLayer l) := by
    rw [storeLayer, KeyMap.get?_insert, if_pos rfl]
  constructor
  · intro hafter
    refine ⟨?_, fun hnew x hx => ?_⟩
    · obtain ⟨l', hl'⟩ := KeyMap.contains_iff.mp ((hrest.contains _).trans (KeyMap.contains_iff.mpr ⟨_, hstored⟩))
      obtain ⟨l₀, hl₀, he⟩ := hrest.layer hl'
      obtain rfl := Option.some.inj (hstored.symm.trans hl₀)
      have hpins := hafter.layerPins _ l' hl'
      rwa [he, pins_storedLayer] at hpins
    · -- Nodes that are no members keep the copies that they have as soon as the layer is stored.
      have hmirrors : (b.storeLayer l).Mirrors x := (hafter.nodes x).of_sameRest hrest.symm fun shelf =>
        (copy?_assignLayers_of_rooted hroots hx _ shelf).symm
      exact (h.mirrors_storeLayer_iff l).mp hmirrors hnew
  · rintro ⟨hpins, hbrings⟩
    refine ⟨(h.toIndexed.storeLayer hpins).of_sameRest hrest, fun x => ?_⟩
    by_cases hx : x ∈ members
    · exact mirrors_assignLayers hroots (Or.inl hx) _
    · exact mirrors_assignLayers hroots (Or.inr ((h.mirrors_storeLayer_iff l).mpr fun hnew => hbrings hnew x hx)) _

/-- On a mirrored board a mutation that is carried out leaves a mirrored board just if what it brings accords with the board:
a node that replaces another has to name the same layer, as far as the layer exists, and a new layer has to bring a copy of
just those nodes, its members apart, that name it already. -/
theorem execute_mirrored_iff (h : b.Mirrored) (hr : (b.execute m).result = .ok r) :
    (b.execute m).board.Mirrored ↔ b.Accords m := by
  obtain ⟨hok, hboard⟩ := execute_of_ok hr
  rw [hboard, mirrored_countChange_iff]
  cases m with
  | updateNode expected n => exact h.updateNode_iff hok
  | upsertLayer l members => exact h.upsertLayer_iff hok
  | _ => exact iff_of_true (h.perform rfl) trivial

/-- A node in a layer is replaced by one that is in none: the layer still has a copy. -/
theorem mirror_left_behind :
    let n : Node := ⟨"n", "log", "Log", "", "", none, ∅, .origin, some "l"⟩
    let layered := ((blank "b" "board").execute (.upsertLayer ⟨"l", "Group", none, none, ∅, ∅, .origin, none⟩ [])).board
    let b := layered.storeNode n
    let m : Mutation := .updateNode none { n with layer := none }
    b.Mirrored ∧ (∃ r, (b.execute m).result = .ok r) ∧ ¬ (b.execute m).board.Mirrored ∧
    ((b.execute m).board.copy? (some "l") "n").map (·.layer) = some none := by
  intro n layered b m
  have hlayered : layered.Mirrored := by
    refine (execute_mirrored_iff (mirrored_blank "b" "board") (r := .storedLayer _) rfl).mpr ⟨KeyMap.Keyed.empty, fun _ x _ n => ?_⟩
    exact iff_of_false nofun fun h => by cases h.1
  have hb : b.Mirrored := by
    refine hlayered.storeNode (fun layer => ?_) KeyMap.Keyed.empty
    cases hc : layered.copy? (some layer) n.id with
    | none => rfl
    | some m => cases (hlayered.nodes n.id).top hc
  refine ⟨hb, ⟨.storedNode _, rfl⟩, fun hafter => ?_, rfl⟩
  obtain ⟨-, hsame⟩ := (execute_mirrored_iff hb (r := .storedNode _) rfl).mp hafter
  cases (hsame n rfl "l" rfl).mpr rfl

end Board

end Workboard
