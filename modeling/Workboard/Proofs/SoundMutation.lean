import Workboard.Proofs.Proper
import Workboard.Proofs.Refusal
import Workboard.Proofs.Sound

/-! Proper mutations keep a board sound.

Each mutation is followed through its elementary changes; what is checked before the first one is what
keeps the board sound: a layer that is named exists, and a node that is replaced is as expected. -/

namespace Workboard

deriving instance ReflBEq, LawfulBEq for Pin

/-! ### Changes of a node -/

namespace Node

/-- Nodes that compare equal have the same id, pins and layer. -/
theorem parts_of_beq {m n : Node} (h : (m == n) = true) : m.id = n.id ∧ m.pins = n.pins ∧ m.layer = n.layer := by
  change instBEqNode.beq m n = true at h
  simp only [instBEqNode.beq, Bool.and_eq_true, beq_iff_eq] at h
  obtain ⟨hid, -, -, -, -, -, hpins, -, hlayer⟩ := h
  exact ⟨hid, hpins, hlayer⟩

theorem harmless_editPin (pin : String) {f : Pin → Pin} (hf : ∀ p, (f p).id = p.id) : Harmless (·.editPin pin f) where
  id _ := rfl
  layer _ := rfl
  pins _ h := h.modify pin hf

theorem harmless_disconnectFrom (gone : List String) : Harmless (·.disconnectFrom gone) where
  id _ := rfl
  layer _ := rfl
  pins _ h := h.mapValues fun _ _ => rfl

theorem harmless_place (goal : Place) : Harmless fun n => { n with place := goal } where
  id _ := rfl
  layer _ := rfl
  pins _ h := h

end Node

namespace Board

variable {b b' : Board}

theorem contains_of_needLayer? {layer : Option String} {u : Unit} (h : b.needLayer? layer = .ok u) {id : String}
    (hid : layer = some id) : b.layers.contains id = true := by
  subst hid
  change (b.needLayer id).map _ = _ at h
  cases hl : b.needLayer id with
  | error e =>
    rw [hl] at h
    cases h
  | ok l => exact contains_of_needLayer hl

/-! ### Nodes -/

theorem Sound.removeNode (h : b.Sound) (id : String) : (b.removeNode id).board.Sound :=
  Effect.board_given h fun n _ =>
    (h.dropNode id).editNodes ((b.dropNode id).neighbours n.pins.keys) (Node.harmless_disconnectFrom n.pins.keys)

/-- Both ends of a connection are changed, and no pin's id. -/
theorem Sound.editEnds (h : b.Sound) (w : Wire) {f g : Pin → Pin} (hf : ∀ p, (f p).id = p.id) (hg : ∀ p, (g p).id = p.id) :
    ((b.editNode w.fromNode (·.editPin w.fromPin f)).editNode w.toNode (·.editPin w.toPin g)).Sound :=
  (h.editNode_harmless w.fromNode (Node.harmless_editPin w.fromPin hf)).editNode_harmless w.toNode
    (Node.harmless_editPin w.toPin hg)

/-- The node that is replaced has the pins of the expected one, and the new one differs from it in a default
    value only. -/
theorem Sound.updateNode (h : b.Sound) {old current : Node} (hbeq : (old == current) = true)
    (hcurrent : b.node? old.id = some current) (pin : String) (value : List UInt8) :
    (b.editNode old.id fun _ => old.withDefault pin value).Sound := by
  obtain ⟨hid, hpins, hlayer⟩ := Node.parts_of_beq hbeq
  refine h.editNode _ fun n hn => ?_
  obtain rfl : n = current := Option.some.inj (hn.symm.trans ((h.filed _).node?.symm.trans hcurrent))
  refine ⟨hid, hlayer, KeyMap.Keyed.modify ?_ pin fun _ => rfl⟩
  rw [hpins]
  exact (h.filed _).pins n hn

theorem Sound.moveInto (h : b.Sound) {target : String} (htarget : b.layers.contains target = true) (id : String) (goal : Place) :
    ((b.editNode id fun n => { n with place := goal }).assignLayer id (some target)).Sound := by
  refine (h.editNode_harmless id (Node.harmless_place goal)).assignLayer id fun l hl => ?_
  cases hl
  exact ((sameRest_editNode b id _).contains target).trans htarget

/-! ### Layers -/

theorem Sound.upsertLayer (h : b.Sound) {l : Layer} (hid : l.id = "") (hnodes : l.nodes = ∅) (hpins : l.pins = ∅)
    (hparent : ∀ parent, l.parent = some parent → b.layers.contains parent = true) (members : List String) :
    ((b.storeLayer l).assignLayers members (some (b.storedLayer l).id)).Sound := by
  have hfree := contains_layers_freshId h.layers "layer"
  have hstored : b.storedLayer l = { l with id := freshId b.takenIds "layer" } := by
    unfold storedLayer namedLayer
    rw [if_pos hid, KeyMap.contains_eq_false_iff.mp hfree]
  have hput : (b.storeLayer l).Sound := by
    show (b.putLayer (b.storedLayer l)).Sound
    rw [hstored]
    refine h.putLayer hfree hnodes ?_ hparent
    rw [hpins]
    exact KeyMap.Keyed.empty
  refine hput.assignLayers members fun layer hlayer => ?_
  cases hlayer
  simp [storeLayer, KeyMap.contains_insert]

theorem Sound.removeLayer (h : b.Sound) {id : String} {l : Layer} (hl : b.layers.get? id = some l) :
    ((b.assignLayers (b.membersOf id) l.parent).dissolveLayer id l.parent).Sound := by
  have hin : ∀ parent, l.parent = some parent → b.Inside id parent := fun parent hp => ⟨l, hl, hp⟩
  have hassigned := h.assignLayers (b.membersOf id) fun parent hp => h.parents id parent (hin parent hp)
  -- The layer is found again, with the same parent; its members are in that one.
  have hrest := sameRest_assignLayers b (b.membersOf id) l.parent
  obtain ⟨l', hl', hparent⟩ : ∃ l', (b.assignLayers (b.membersOf id) l.parent).layers.get? id = some l' ∧
      l'.parent = l.parent := by
    obtain ⟨l', hl'⟩ := KeyMap.contains_iff.mp ((hrest.contains id).trans (KeyMap.contains_iff.mpr ⟨l, hl⟩))
    obtain ⟨l₀, hl₀, he⟩ := hrest.layer hl'
    refine ⟨l', hl', ?_⟩
    rw [hl] at hl₀
    cases hl₀
    rw [he]
  rw [← hparent] at hassigned hl' ⊢
  refine hassigned.dissolveLayer hl' fun x n hn hown => ?_
  by_cases hx : x ∈ b.membersOf id
  · have hp := h.keyed.layer_assignLayers hx hn
    rw [hp, hparent] at hown
    exact h.parent_ne (hin id hown) rfl
  · rw [h.keyed.copy?_assignLayers_of_notMem hx] at hn
    exact hx (h.keyed.mem_membersOf.mpr ⟨n, node?_of_copy?_none hn, hown⟩)

/-! ### Variables and comments -/

/-- Nodes and layers are as before, and variables and comments are in order. -/
theorem Sound.of_layers (h : b.Sound) (hnodes : b'.nodes = b.nodes) (hlayers : b'.layers = b.layers)
    (hvars : b'.vars.Keyed Variable.id) (hcomments : b'.comments.Keyed Comment.id)
    (hplaced : ∀ id c layer, b'.comments.get? id = some c → c.layer = some layer → b.layers.contains layer = true) :
    b'.Sound := by
  obtain ⟨id, name, description, nodes, vars, comments, layers, version⟩ := b'
  obtain rfl : nodes = b.nodes := hnodes
  obtain rfl : layers = b.layers := hlayers
  exact {
    layers := h.layers
    layerPins := h.layerPins
    vars := hvars
    comments := hcomments
    commentLayers := hplaced
    parents := h.parents
    acyclic := h.acyclic
    filed := fun x => (h.filed x).of_copy?_eq (fun _ => rfl) fun _ hl => hl }

theorem Sound.setVars (h : b.Sound) {vars : KeyMap Variable} (hvars : vars.Keyed Variable.id) :
    ({ b with vars } : Board).Sound := h.of_layers rfl rfl hvars h.comments h.commentLayers

theorem Sound.setComments (h : b.Sound) {comments : KeyMap Comment} (hcomments : comments.Keyed Comment.id)
    (hplaced : ∀ id c layer, comments.get? id = some c → c.layer = some layer → b.layers.contains layer = true) :
    ({ b with comments } : Board).Sound := h.of_layers rfl rfl h.vars hcomments hplaced

theorem Sound.putComment (h : b.Sound) {c : Comment}
    (hc : ∀ layer, c.layer = some layer → b.layers.contains layer = true) :
    ({ b with comments := b.comments.insert c.id c } : Board).Sound := by
  refine h.setComments (h.comments.insert c) fun id d layer hd hl => ?_
  rw [KeyMap.get?_insert] at hd
  split at hd
  · cases hd
    exact hc layer hl
  · exact h.commentLayers id d layer hd hl

theorem Sound.eraseComment (h : b.Sound) (id : String) : ({ b with comments := b.comments.erase id } : Board).Sound := by
  refine h.setComments (h.comments.erase id) fun k c layer hc hl => ?_
  rw [KeyMap.get?_erase] at hc
  split at hc
  · cases hc
  · exact h.commentLayers k c layer hc hl

theorem layer_storedComment (b : Board) (c : Comment) : (b.storedComment c c.layer).layer = c.layer := by
  unfold storedComment
  split <;> dsimp only <;> split <;> rfl

/-! ### Mutations -/

theorem Sound.perform (h : b.Sound) {m : Mutation} (hm : m.Proper) : (b.perform m).board.Sound := by
  refine board_perform fun b' hb' => ?_
  cases hb' with
  | refused => exact h
  | addNode htarget =>
    exact h.storeNode (fun own => h.keyed.copy?_freshId "node" (some own)) (KeyMap.Keyed.ofList _)
      fun l hl => contains_of_needLayer? htarget hl
  | removeNode => exact h.removeNode _
  | connect | disconnect => exact h.editEnds _ (fun _ => rfl) fun _ => rfl
  | @updateNode _ _ current hnode hsame =>
    obtain ⟨old, pin, value, rfl, rfl⟩ := hm
    have hbeq : (old == current) = true := by simpa [bne] using hsame
    exact h.updateNode hbeq hnode pin value
  | moveNode => exact h.editNode_harmless _ (Node.harmless_place _)
  | moveInto _ hfound => exact h.moveInto (contains_of_needLayer? hfound rfl) _ _
  | upsertVariable => exact h.setVars (h.vars.insert _)
  | removeVariable => exact h.setVars (h.vars.erase _)
  | upsertComment htarget =>
    obtain rfl := hm
    exact h.putComment fun own hown => contains_of_needLayer? htarget ((layer_storedComment b _).symm.trans hown)
  | removeComment => exact h.eraseComment _
  | upsertLayer hparent =>
    obtain ⟨hid, hnodes, hpins⟩ := hm
    exact h.upsertLayer hid hnodes hpins (fun _ hp => contains_of_needLayer? hparent hp) _
  | addToLayer hlayer =>
    refine h.assignLayers _ fun layer hown => ?_
    cases hown
    exact contains_of_needLayer hlayer
  | @removeFromLayer id members l hlayer =>
    exact h.assignLayers _ fun parent hp => h.parents id parent ⟨l, needLayer_eq_ok.mp hlayer, hp⟩
  | removeLayer hlayer => exact h.removeLayer (needLayer_eq_ok.mp hlayer)
  | removeWhole | removePart => cases hm

/-- Counting a change in the version changes nothing else. -/
theorem Sound.countChange (h : b.Sound) : b.countChange.Sound := h.of_layers rfl rfl h.vars h.comments h.commentLayers

/-- A proper mutation keeps a board sound, whether it is carried out or refused. -/
theorem Sound.execute (h : b.Sound) {m : Mutation} (hm : m.Proper) : (b.execute m).board.Sound :=
  board_execute (h.perform hm) fun _ h => h.countChange

end Board

end Workboard
