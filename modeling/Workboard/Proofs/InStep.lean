import Workboard.Proofs.SoundMutation

/-! Copies that are in step.

On a board that is in step every copy of a node in a layer is the one at board level, so a node is its copy
there and a pin is found by the node's id and its own (`Board.nodePin?`). The mutations that batches ask for
keep a board in step; what they do to the pins is told here mutation by mutation. -/

namespace Workboard

/-- The pin without its connections to the given pins. -/
def Pin.disconnectFrom (p : Pin) (gone : List String) : Pin :=
  { p with connectedTo := p.connectedTo.eraseAll gone, dependsOn := p.dependsOn.eraseAll gone }

theorem Pin.disconnectFrom_of_not_touches {p : Pin} {gone : List String} (h : p.touches gone = false) :
    p.disconnectFrom gone = p := by
  obtain ⟨hout, hin⟩ := Bool.or_eq_false_iff.mp h
  have hkeep : ∀ s : KeySet, s.toList.any (· ∈ gone) = false → s.eraseAll gone = s := by
    intro s hs
    refine KeySet.ext fun k => ?_
    rw [KeySet.contains_eraseAll]
    cases hk : s.contains k with
    | false => rw [Bool.and_false]
    | true =>
      have := List.any_eq_false.mp hs k (KeySet.mem_toList.mpr hk)
      simpa using this
  unfold disconnectFrom
  rw [hkeep _ hout, hkeep _ hin]

namespace KeyMap

/-- The pins without their connections to the given ones. -/
def disconnectFrom (pins : KeyMap Pin) (gone : List String) : KeyMap Pin := pins.mapValues fun _ p => p.disconnectFrom gone

theorem get?_disconnectFrom (pins : KeyMap Pin) (gone : List String) (k : String) :
    (pins.disconnectFrom gone).get? k = (pins.get? k).map (·.disconnectFrom gone) := get?_mapValues _ _ _

theorem disconnectFrom_of_not_touches {pins : KeyMap Pin} {gone : List String}
    (h : ∀ p ∈ pins.values, p.touches gone = false) : pins.disconnectFrom gone = pins := by
  refine ext fun k => ?_
  rw [get?_disconnectFrom]
  cases hp : pins.get? k with
  | none => rfl
  | some p => rw [Option.map_some, Pin.disconnectFrom_of_not_touches (h p (mem_values.mpr ⟨k, hp⟩))]

end KeyMap

/-- Nodes that compare equal are the same but for their coordinates, and these are equal as numbers: a zero
    may have another sign. -/
theorem Node.eq_of_beq_but_place {m n : Node} (h : (m == n) = true) :
    (m.place == n.place) = true ∧ m = { n with place := m.place } := by
  change instBEqNode.beq m n = true at h
  simp only [instBEqNode.beq, Bool.and_eq_true, beq_iff_eq] at h
  obtain ⟨hid, hname, hfriendly, hcategory, hdescription, hcomment, hpins, hplace, hlayer⟩ := h
  refine ⟨hplace, ?_⟩
  obtain ⟨id, name, friendlyName, category, description, comment, pins, place, layer⟩ := m
  subst hid hname hfriendly hcategory hdescription hcomment hpins hlayer
  rfl

/-- Whether a mutation leaves the pins of all nodes as they are. -/
def Mutation.keepsPins : Mutation → Bool
  | .addNode .. | .removeNode _ | .connect _ | .disconnect _ | .updateNode .. => false
  | .removeLayer _ keepNodes => keepNodes
  | _ => true

namespace Board

variable {b b' : Board} {id x : String}

/-- A board whose layers have the same copies of nodes as the board itself. -/
structure InStep (b : Board) : Prop extends b.Keyed where
  same : ∀ layer x n, b.copy? (some layer) x = some n → b.copy? none x = some n

theorem inStep_blank (id name : String) : (blank id name).InStep where
  nodes := KeyMap.Keyed.empty
  mirrors layer l hl := by cases hl
  same layer x n hn := by cases hn

namespace InStep

theorem of_copy? (h : b.InStep) (hsub : ∀ shelf x n, b'.copy? shelf x = some n → b.copy? shelf x = some n)
    (htop : ∀ x, b'.copy? none x = b.copy? none x) : b'.InStep where
  toKeyed := keyed_iff.mpr fun shelf x n hn => keyed_iff.mp h.toKeyed shelf x n (hsub shelf x n hn)
  same layer x n hn := (htop x).trans (h.same layer x n (hsub (some layer) x n hn))

/-- A node is its copy at board level. -/
theorem node? (h : b.InStep) (x : String) : b.node? x = b.copy? none x := by
  cases hc : b.copy? none x with
  | some n => exact node?_of_copy?_none hc
  | none =>
    cases hn : b.node? x with
    | none => rfl
    | some n =>
      obtain ⟨_ | layer, hs⟩ := copy?_of_node? hn
      · rw [hc] at hs
        cases hs
      · have := h.same layer x n hs
        rw [hc] at this
        cases this

theorem top_of_copy? (h : b.InStep) {shelf : Option String} {n : Node} (hn : b.copy? shelf x = some n) :
    b.copy? none x = some n := by
  cases shelf with
  | none => exact hn
  | some layer => exact h.same layer x n hn

/-! ### Elementary changes -/

theorem editNode (h : b.InStep) (id : String) {f : Node → Node} (hf : ∀ n, n.id = id → (f n).id = id) :
    (b.editNode id f).InStep where
  toKeyed := h.toKeyed.editNode id hf
  same layer x n hn := by
    rw [copy?_editNode] at hn ⊢
    split at hn
    · rename_i hx
      obtain ⟨m, hm, rfl⟩ := Option.map_eq_some_iff.mp hn
      rw [if_pos hx, h.same layer x m hm]
      rfl
    · rename_i hx
      rw [if_neg hx]
      exact h.same layer x n hn

theorem editNodes (h : b.InStep) (ids : List String) {f : Node → Node} (hf : ∀ n, (f n).id = n.id) :
    (b.editNodes ids f).InStep :=
  board_editNodes h (fun _ id h => h.editNode id fun n hn => (hf n).trans hn) ids

theorem unmirror (h : b.InStep) (id : String) : (b.unmirror id).InStep :=
  h.of_copy? (fun _ _ _ hn => (copy?_unmirror_cases hn).1) fun _ => rfl

theorem dropNode (h : b.InStep) (id : String) : (b.dropNode id).InStep where
  toKeyed := keyed_iff.mpr fun shelf x n hn => by
    rw [copy?_dropNode] at hn
    split at hn
    · cases hn
    · exact keyed_iff.mp h.toKeyed shelf x n hn
  same layer x n hn := by
    rw [copy?_dropNode] at hn ⊢
    split at hn
    · cases hn
    · rename_i hx
      rw [if_neg hx]
      exact h.same layer x n hn

/-- A node of which no layer has a copy is stored with the same copy in its layer. -/
theorem storeNode (h : b.InStep) {n : Node} (hno : ∀ layer, b.copy? (some layer) n.id = none) : (b.storeNode n).InStep where
  toKeyed := h.toKeyed.storeNode n
  same layer x m hm := by
    rw [copy?_storeNode_none]
    rw [copy?_storeNode_some] at hm
    split at hm
    · rename_i hx
      rw [if_pos hx.1]
      exact hm
    · by_cases hx : n.id = x
      · subst hx
        rw [hno] at hm
        cases hm
      · rw [if_neg hx]
        exact h.same layer x m hm

theorem assignLayer (h : b.InStep) (id : String) (layer : Option String) : (b.assignLayer id layer).InStep := by
  unfold Board.assignLayer
  split
  · rename_i n hn
    refine (h.unmirror id).storeNode (n := { n with layer }) fun own => ?_
    rw [copy?_unmirror_some, if_pos (h.toKeyed.id_of_node? hn).symm]
  · exact h

theorem assignLayers (h : b.InStep) (ids : List String) (layer : Option String) : (b.assignLayers ids layer).InStep :=
  board_assignLayers h (fun _ id h => h.assignLayer id layer) ids

/-- A layer that brings no copies of its own has those of the layer that it replaces, or none. -/
theorem storeLayer (h : b.InStep) {l : Layer} (hnodes : l.nodes = ∅) : (b.storeLayer l).InStep := by
  refine h.of_copy? (fun shelf x n hn => ?_) fun _ => rfl
  cases shelf with
  | none => exact hn
  | some layer =>
    rw [copy?_storeLayer_some] at hn
    split at hn
    · rename_i hid
      rw [nodes_storedLayer, hid, hnodes] at hn
      cases hl : b.layers.get? layer with
      | none =>
        rw [hl] at hn
        cases hn
      | some l' =>
        rw [hl] at hn
        exact copy?_some_eq_some.mpr ⟨l', hl, hn⟩
    · exact hn

theorem dissolveLayer (h : b.InStep) (id : String) (parent : Option String) : (b.dissolveLayer id parent).InStep := by
  refine h.of_copy? (fun shelf x n hn => ?_) fun _ => rfl
  cases shelf with
  | none => exact hn
  | some layer =>
    rw [copy?_dissolveLayer_some] at hn
    split at hn
    · cases hn
    · exact hn

end InStep

/-- Changes of a node count by what they do to its copies. -/
theorem editNode_congr {id : String} {f g : Node → Node} (h : ∀ shelf n, b.copy? shelf id = some n → f n = g n) :
    b.editNode id f = b.editNode id g := by
  have hmodify : ∀ nodes : KeyMap Node, (∀ n, nodes.get? id = some n → f n = g n) → nodes.modify id f = nodes.modify id g := by
    intro nodes hnodes
    refine KeyMap.ext fun x => ?_
    rw [KeyMap.get?_modify, KeyMap.get?_modify]
    split
    · rename_i hx
      subst hx
      cases hn : nodes.get? id with
      | none => rfl
      | some n => rw [Option.map_some, Option.map_some, hnodes n hn]
    · rfl
  have hlayers : (b.layers.mapValues fun _ l => { l with nodes := l.nodes.modify id f }) =
      b.layers.mapValues fun _ l => { l with nodes := l.nodes.modify id g } := by
    refine KeyMap.ext fun layer => ?_
    rw [KeyMap.get?_mapValues, KeyMap.get?_mapValues]
    cases hl : b.layers.get? layer with
    | none => rfl
    | some l =>
      rw [Option.map_some, Option.map_some, hmodify l.nodes fun n hn => h (some layer) n (copy?_some_eq_some.mpr ⟨l, hl, hn⟩)]
  unfold editNode
  rw [hmodify b.nodes (h none), hlayers]

/-- A node that is stored as it was found is replaced by itself with another value at one of its pins: all its
    copies get the value. -/
theorem InStep.editNode_withDefault (h : b.InStep) {n current : Node} (hstored : b.copy? none n.id = some current)
    (hn : n = { current with place := n.place }) (pin : String) (value : List UInt8) :
    b.editNode n.id (fun _ => n.withDefault pin value) =
      b.editNode n.id fun m => { m.withDefault pin value with place := n.place } := by
  refine editNode_congr fun shelf m hm => ?_
  obtain rfl : m = current := Option.some.inj ((h.top_of_copy? hm).symm.trans hstored)
  exact congrArg (·.withDefault pin value) hn

/-! ### Pins of nodes -/

/-- The pin of a node, by the node's key and the pin's. -/
def nodePin? (b : Board) (node pin : String) : Option Pin := (b.copy? none node).bind (·.pins.get? pin)

theorem nodePin?_congr (h : b'.nodes = b.nodes) (x k : String) : b'.nodePin? x k = b.nodePin? x k := by
  unfold nodePin? copy?
  rw [h]

theorem nodePin?_storeNode (b : Board) (n : Node) (x k : String) :
    (b.storeNode n).nodePin? x k = if n.id = x then n.pins.get? k else b.nodePin? x k := by
  unfold nodePin?
  rw [copy?_storeNode_none]
  split <;> rfl

theorem nodePin?_editNode (b : Board) (id : String) (f : Node → Node) (x k : String) :
    (b.editNode id f).nodePin? x k =
      if id = x then (b.copy? none x).bind fun n => (f n).pins.get? k else b.nodePin? x k := by
  unfold nodePin?
  rw [copy?_editNode]
  split
  · cases b.copy? none x <;> rfl
  · rfl

/-- A change of a node that leaves its pins. -/
theorem nodePin?_editNode_of_pins {f : Node → Node} (hf : ∀ n, (f n).pins = n.pins) (b : Board) (id x k : String) :
    (b.editNode id f).nodePin? x k = b.nodePin? x k := by
  rw [nodePin?_editNode]
  simp only [hf]
  split <;> rfl

theorem InStep.nodePin?_assignLayers (h : b.InStep) (ids : List String) (layer : Option String) (x k : String) :
    (b.assignLayers ids layer).nodePin? x k = b.nodePin? x k := by
  unfold Board.assignLayers
  induction ids generalizing b with
  | nil => rfl
  | cons id ids ih =>
    refine (ih (h.assignLayer id layer)).trans ?_
    cases hn : b.node? id with
    | none => rw [assignLayer_of_node?_eq_none hn]
    | some n =>
      unfold nodePin?
      rw [copy?_assignLayer_none hn (h.toKeyed.id_of_node? hn)]
      split
      · rename_i hx
        rw [← hx, ← h.node? id, hn]
        rfl
      · rfl

/-- Several different nodes are each changed once. -/
theorem copy?_editNodes {ids : List String} (hnodup : ids.Nodup) (b : Board) (f : Node → Node) (shelf : Option String)
    (x : String) : (b.editNodes ids f).copy? shelf x = if x ∈ ids then (b.copy? shelf x).map f else b.copy? shelf x := by
  unfold editNodes
  induction ids generalizing b with
  | nil => simp
  | cons id ids ih =>
    obtain ⟨hid, hnodup⟩ := List.nodup_cons.mp hnodup
    rw [List.foldl_cons, ih hnodup, copy?_editNode]
    by_cases hx : id = x
    · subst hx
      simp [hid]
    · have hx' : x ≠ id := fun e => hx e.symm
      simp [hx, hx']

theorem Keyed.dropNode (hb : b.Keyed) (id : String) : (b.dropNode id).Keyed := by
  refine keyed_iff.mpr fun shelf j n hn => ?_
  rw [copy?_dropNode] at hn
  split at hn
  · cases hn
  · exact keyed_iff.mp hb shelf j n hn

/-- A node that is no neighbour has no connection to lose. -/
theorem Keyed.disconnectFrom_of_notMem (hb : b.Keyed) {n : Node} {gone : List String} (hx : x ∉ b.neighbours gone)
    (hn : b.node? x = some n) : n.pins.disconnectFrom gone = n.pins := by
  refine KeyMap.disconnectFrom_of_not_touches fun p hp => ?_
  by_contra htouches
  have hid := hb.id_of_node? hn
  have hmem : n ∈ b.allNodes := hb.mem_allNodes.mpr (by rw [hid, hn])
  refine hx (List.mem_map.mpr ⟨n, List.mem_filter.mpr ⟨hmem, ?_⟩, hid⟩)
  exact List.any_eq_true.mpr ⟨p, hp, by simpa using htouches⟩

/-- All other nodes lose their connections to the pins of the removed one. -/
theorem InStep.copy?_removeNode (h : b.InStep) {n : Node} (hn : b.node? id = some n) (x : String) :
    (b.removeNode id).board.copy? none x = if id = x then none else (b.copy? none x).map (·.disconnectFrom n.pins.keys) := by
  rw [removeNode_of_node? hn]
  have hrest := h.dropNode id
  have htop : (b.dropNode id).copy? none x = if id = x then none else b.copy? none x := copy?_dropNode b id none x
  have hnodup : ((b.dropNode id).neighbours n.pins.keys).Nodup :=
    Node.nodup_map_id_distinct.sublist (List.filter_sublist.map _)
  show ((b.dropNode id).editNodes _ _).copy? none x = _
  rw [copy?_editNodes hnodup, htop]
  by_cases hx : id = x
  · simp [hx]
  rw [if_neg hx, if_neg hx]
  rw [if_neg hx] at htop
  split
  · rfl
  · rename_i hno
    cases hm : b.copy? none x with
    | none => rfl
    | some m =>
      have hsame := hrest.toKeyed.disconnectFrom_of_notMem hno ((hrest.node? x).trans (htop.trans hm))
      show some m = some { m with pins := m.pins.disconnectFrom n.pins.keys }
      rw [hsame]

theorem InStep.nodePin?_removeNode (h : b.InStep) {n : Node} (hn : b.node? id = some n) (x k : String) :
    (b.removeNode id).board.nodePin? x k =
      if id = x then none else (b.nodePin? x k).map (·.disconnectFrom n.pins.keys) := by
  unfold nodePin?
  rw [h.copy?_removeNode hn]
  split
  · rfl
  · cases b.copy? none x with
    | none => rfl
    | some m => exact KeyMap.get?_disconnectFrom m.pins n.pins.keys k

/-- Nodes have the same pins. -/
def SamePins (b b' : Board) : Prop := ∀ x k, b'.nodePin? x k = b.nodePin? x k

theorem InStep.removeNode (h : b.InStep) (id : String) : (b.removeNode id).board.InStep :=
  Effect.board_given h fun n _ => (h.dropNode id).editNodes ((b.dropNode id).neighbours n.pins.keys) fun _ => rfl

theorem InStep.editEnds (h : b.InStep) (w : Wire) (f g : Pin → Pin) :
    ((b.editNode w.fromNode (·.editPin w.fromPin f)).editNode w.toNode (·.editPin w.toPin g)).InStep :=
  (h.editNode (f := (·.editPin w.fromPin f)) w.fromNode fun _ hn => hn).editNode (f := (·.editPin w.toPin g)) w.toNode
    fun _ hn => hn

theorem InStep.setPlace (h : b.InStep) (id : String) (goal : Place) : (b.editNode id fun n => { n with place := goal }).InStep :=
  h.editNode (f := fun n => { n with place := goal }) id fun _ hn => hn

/-- Batches ask for mutations that keep a board in step. -/
theorem InStep.perform (h : b.InStep) {m : Mutation} (hm : m.Proper) : (b.perform m).board.InStep := by
  have hrest : ∀ {b' : Board}, b'.nodes = b.nodes → b'.layers = b.layers → b'.InStep := by
    intro b' hnodes hlayers
    have hcopy : ∀ shelf x, b'.copy? shelf x = b.copy? shelf x := fun shelf x => by
      unfold copy?
      rw [hnodes, hlayers]
    exact h.of_copy? (fun shelf x n hn => (hcopy shelf x).symm.trans hn) (hcopy none)
  refine board_perform fun b' hb' => ?_
  cases hb' with
  | refused => exact h
  | addNode => exact h.storeNode fun own => h.toKeyed.copy?_freshId "node" (some own)
  | removeNode => exact h.removeNode _
  | connect | disconnect => exact h.editEnds _ _ _
  | updateNode => exact h.editNode _ fun _ _ => rfl
  | moveNode => exact h.setPlace _ _
  | moveInto => exact (h.setPlace _ _).assignLayer _ _
  | upsertVariable | removeVariable | upsertComment | removeComment => exact hrest rfl rfl
  | upsertLayer => exact (h.storeLayer hm.2.1).assignLayers _ _
  | addToLayer | removeFromLayer => exact h.assignLayers _ _
  | removeLayer => exact (h.assignLayers _ _).dissolveLayer _ _
  | removeWhole | removePart => cases hm

theorem InStep.execute (h : b.InStep) {m : Mutation} (hm : m.Proper) : (b.execute m).board.InStep :=
  board_execute (h.perform hm) fun _ h => h.of_copy? (fun _ _ _ hn => hn) fun _ => rfl

theorem InStep.samePins_perform (h : b.InStep) {m : Mutation} (hm : m.Proper) (hkeeps : m.keepsPins = true) :
    SamePins b (b.perform m).board := by
  have hmoved : ∀ id goal, SamePins b (b.editNode id fun n => { n with place := goal }) := fun id goal =>
    nodePin?_editNode_of_pins (f := fun n => { n with place := goal }) (fun _ => rfl) b id
  refine board_perform fun b' hb' => ?_
  cases hb' with
  | refused => exact fun _ _ => rfl
  | moveNode => exact hmoved _ _
  | @moveInto id target _ goal =>
    exact fun x k => ((h.setPlace id goal).nodePin?_assignLayers [id] (some target) x k).trans (hmoved id goal x k)
  | upsertVariable | removeVariable | upsertComment | removeComment => exact nodePin?_congr rfl
  | upsertLayer => exact (h.storeLayer hm.2.1).nodePin?_assignLayers _ _
  | addToLayer | removeFromLayer => exact h.nodePin?_assignLayers _ _
  | @removeLayer id l => exact h.nodePin?_assignLayers (b.membersOf id) l.parent
  | addNode | removeNode | connect | disconnect | updateNode | removeWhole | removePart => cases hkeeps

end Board

end Workboard
