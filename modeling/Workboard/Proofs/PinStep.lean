import Workboard.Proofs.InStep

/-! What a mutation does to the pins of nodes.

On a board that is in step there are four ways (`Board.PinStep`): all pins keep their ends, a node comes with
new pins that have none, the pins of a node go and with them every mention of them, or a connection is made or
removed at both of its ends. -/

namespace Workboard

/-- Adds a member or removes it. -/
def KeySet.put (s : KeySet) (k : String) (on : Bool) : KeySet := if on then s.insert k else s.erase k

theorem KeySet.contains_put (s : KeySet) (k j : String) (on : Bool) :
    (s.put k on).contains j = if k = j then on else s.contains j := by
  unfold put
  cases on with
  | true =>
    rw [if_pos rfl, contains_insert]
    by_cases h : k = j <;> simp [h]
  | false =>
    rw [if_neg Bool.false_ne_true, contains_erase]
    by_cases h : k = j <;> simp [h]

/-- Two pins with the same id, kind and connections. -/
structure Pin.SameEnds (p q : Pin) : Prop where
  id : p.id = q.id
  direction : p.direction = q.direction
  execution : p.isExecution = q.isExecution
  outs : p.connectedTo = q.connectedTo
  ins : p.dependsOn = q.dependsOn

theorem Pin.SameEnds.refl (p : Pin) : p.SameEnds p := ⟨rfl, rfl, rfl, rfl, rfl⟩

/-- The pin of a node with a connection made or removed, if the pin is an end of it. -/
def Pin.setEnd (p : Pin) (node pin : String) (w : Wire) (on : Bool) : Pin :=
  { p with
    connectedTo := if w.fromNode = node ∧ w.fromPin = pin then p.connectedTo.put w.toPin on else p.connectedTo
    dependsOn := if w.toNode = node ∧ w.toPin = pin then p.dependsOn.put w.fromPin on else p.dependsOn }

/-- The node under a key with a connection made or removed at those of its pins that are an end of it. -/
def Node.setEnds (n : Node) (key : String) (w : Wire) (on : Bool) : Node :=
  { n with pins := n.pins.mapValues fun k p => p.setEnd key k w on }

theorem Node.setEnds_of_ne {n : Node} {key : String} {w : Wire} (hfrom : w.fromNode ≠ key) (hto : w.toNode ≠ key) (on : Bool) :
    n.setEnds key w on = n := by
  refine congrArg (fun pins => { n with pins }) (KeyMap.ext fun k => ?_)
  simp [KeyMap.get?_mapValues, Pin.setEnd, hfrom, hto]

namespace Board

variable {b b' : Board} {x k : String} {p : Pin}

/-- An output and an input of different nodes that can be connected. -/
structure Joins (b : Board) (w : Wire) (p q : Pin) : Prop where
  source : b.nodePin? w.fromNode w.fromPin = some p
  target : b.nodePin? w.toNode w.toPin = some q
  output : p.direction = .output
  input : q.direction = .input
  apart : w.fromNode ≠ w.toNode
  kinds : p.isExecution = q.isExecution

inductive PinStep (b : Board) (m : Mutation) (b' : Board) : Prop where
  | kept (f : String → String → Pin → Pin) (same : ∀ x k p, (f x k p).SameEnds p)
      (pins : ∀ x k, b'.nodePin? x k = (b.nodePin? x k).map (f x k))
  | added (id : String) (new : KeyMap Pin) (makes : m.makesNode = true) (fresh : ∀ k, b.nodePin? id k = none)
      (bare : ∀ k p, new.get? k = some p →
        p.id = k ∧ p.connectedTo = ∅ ∧ p.dependsOn = ∅ ∧ ∀ x, b.nodePin? x k = none)
      (pins : ∀ x k, b'.nodePin? x k = if id = x then new.get? k else b.nodePin? x k)
  | removed (id : String) (gone : List String) (makesNone : m.makesNode = false)
      (own : ∀ k, k ∈ gone ↔ (b.nodePin? id k).isSome = true)
      (pins : ∀ x k, b'.nodePin? x k = if id = x then none else (b.nodePin? x k).map (·.disconnectFrom gone))
  | wired (w : Wire) (on : Bool) (connects : on = true → m = .connect w) (ends : ∃ p q, b.Joins w p q)
      (pins : ∀ x k, b'.nodePin? x k = (b.nodePin? x k).map (·.setEnd x k w on))

theorem SamePins.pinStep (h : SamePins b b') (m : Mutation) : PinStep b m b' :=
  .kept (fun _ _ p => p) (fun _ _ p => .refl p) fun x k => by rw [h, Option.map_id']

/-! ### New pins -/

theorem nodePin?_eq_some : b.nodePin? x k = some p ↔ ∃ n, b.copy? none x = some n ∧ n.pins.get? k = some p :=
  Option.bind_eq_some_iff

/-- The ids of pins are in use. -/
theorem InStep.pinKey_mem_usedIds (h : b.InStep) (hp : b.nodePin? x k = some p) : k ∈ b.usedIds := by
  obtain ⟨n, hn, hp⟩ := nodePin?_eq_some.mp hp
  have hid := h.toKeyed.nodes x n hn
  have hall : n ∈ b.allNodes := by
    rw [h.toKeyed.mem_allNodes, hid, h.node?, hn]
  have hkeys : k ∈ n.pins.keys := KeyMap.mem_keys.mpr (KeyMap.contains_iff.mpr ⟨p, hp⟩)
  have hmem : k ∈ b.allNodes.flatMap fun n => n.id :: n.pins.keys :=
    List.mem_flatMap.mpr ⟨n, hall, List.mem_cons_of_mem n.id hkeys⟩
  exact List.mem_append_left _ (List.mem_append_left _ (List.mem_append_left _ hmem))

theorem mem_renewPins {taken : KeySet} {pins : List Pin} (h : p ∈ renewPins taken pins) :
    taken.contains p.id = false ∧ p.connectedTo = ∅ ∧ p.dependsOn = ∅ := by
  induction pins generalizing taken with
  | nil => cases h
  | cons q pins ih =>
    unfold renewPins at h
    rcases List.mem_cons.mp h with rfl | h
    · exact ⟨freshId_free taken "pin", rfl, rfl⟩
    · obtain ⟨hfree, hends⟩ := ih h
      rw [KeySet.contains_insert, Bool.or_eq_false_iff] at hfree
      exact ⟨hfree.2, hends⟩

/-- The pins of a new node are stored under their ids, have no connections, and are no pins of the board. -/
theorem InStep.bare_instantiate (h : b.InStep) {template : Node} {layer : Option String} {order : List String}
    (hp : (b.instantiate template layer order).pins.get? k = some p) :
    p.id = k ∧ p.connectedTo = ∅ ∧ p.dependsOn = ∅ ∧ ∀ x, b.nodePin? x k = none := by
  obtain ⟨q, hq, he⟩ := List.mem_map.mp (KeyMap.mem_of_get?_ofList hp)
  obtain ⟨rfl, rfl⟩ := Prod.mk.inj he
  obtain ⟨hfree, hout, hin⟩ := mem_renewPins hq
  refine ⟨rfl, hout, hin, fun x => ?_⟩
  cases hused : b.nodePin? x q.id with
  | none => rfl
  | some r =>
    have htaken : b.takenIds.contains q.id = true := (KeySet.contains_ofList _ _).mpr (h.pinKey_mem_usedIds hused)
    rw [KeySet.contains_insert, htaken, Bool.or_true] at hfree
    cases hfree

/-! ### Both ends -/

theorem copy?_editPin (b : Board) (id pin : String) (f : Pin → Pin) (shelf : Option String) (x : String) :
    (b.editNode id (·.editPin pin f)).copy? shelf x = (b.copy? shelf x).map fun n =>
      { n with pins := n.pins.mapValues fun k p => if id = x ∧ pin = k then f p else p } := by
  rw [copy?_editNode]
  by_cases hx : id = x
  · simp only [hx, true_and, if_true, @eq_comm _ pin]
    rfl
  · have hsame : ∀ n : Node, { n with pins := n.pins.mapValues fun k p => if id = x ∧ pin = k then f p else p } = n := by
      intro n
      refine congrArg (fun pins => { n with pins }) (KeyMap.ext fun k => ?_)
      simp [KeyMap.get?_mapValues, hx]
    rw [if_neg hx, funext hsame, Option.map_id']

/-- The board with a connection made or removed at both of its ends. -/
def setEnds (b : Board) (w : Wire) (on : Bool) : Board :=
  (b.editNode w.fromNode (·.editPin w.fromPin fun p => { p with connectedTo := p.connectedTo.put w.toPin on })).editNode
    w.toNode (·.editPin w.toPin fun p => { p with dependsOn := p.dependsOn.put w.fromPin on })

theorem sameRest_setEnds (b : Board) (w : Wire) (on : Bool) : SameRest b (b.setEnds w on) :=
  (sameRest_editNode b _ _).trans (sameRest_editNode _ _ _)

/-- Each copy of a node has the connection at those of its pins that are an end of it. -/
theorem copy?_setEnds (b : Board) (w : Wire) (on : Bool) (shelf : Option String) (x : String) :
    (b.setEnds w on).copy? shelf x = (b.copy? shelf x).map (·.setEnds x w on) := by
  unfold setEnds
  rw [copy?_editPin, copy?_editPin, Option.map_map]
  refine congrArg (fun f => Option.map f (b.copy? shelf x)) (funext fun n => ?_)
  refine congrArg (fun pins => { n with pins }) (KeyMap.ext fun k => ?_)
  simp only [KeyMap.get?_mapValues, Option.map_map]
  refine congrArg (fun f => Option.map f (n.pins.get? k)) (funext fun p => ?_)
  unfold Pin.setEnd
  split <;> split <;> rfl

theorem nodePin?_setEnds (b : Board) (w : Wire) (on : Bool) (x k : String) :
    (b.setEnds w on).nodePin? x k = (b.nodePin? x k).map (·.setEnd x k w on) := by
  unfold nodePin?
  rw [copy?_setEnds]
  cases b.copy? none x with
  | none => rfl
  | some n => exact KeyMap.get?_mapValues _ _ k

theorem InStep.joins_of_needEnds (h : b.InStep) {w : Wire} {u : Unit} (hu : b.needEnds w = .ok u) : ∃ p q, b.Joins w p q := by
  have hpin : ∀ {x n k p}, b.needNode x = .ok n → needPin n x k = .ok p → b.nodePin? x k = some p := by
    intro x n k p hn hp
    have hn := (h.node? x).symm.trans (needNode_eq_ok.mp hn)
    unfold needPin at hp
    split at hp
    · rename_i hget
      cases hp
      exact nodePin?_eq_some.mpr ⟨n, hn, hget⟩
    · cases hp
  unfold needEnds at hu
  obtain ⟨source, hsource, hu⟩ := bind_eq_ok hu
  obtain ⟨target, htarget, hu⟩ := bind_eq_ok hu
  obtain ⟨p, hp, hu⟩ := bind_eq_ok hu
  obtain ⟨q, hq, hu⟩ := bind_eq_ok hu
  split at hu
  · cases hu
  rename_i hapart
  split at hu
  · cases hu
  rename_i hdirections
  split at hu
  · cases hu
  rename_i hkinds
  obtain ⟨houtput, hinput⟩ := not_or.mp hdirections
  exact ⟨p, q, hpin hsource hp, hpin htarget hq, not_not.mp houtput, not_not.mp hinput, hapart, not_not.mp hkinds⟩

/-! ### Mutations -/

theorem InStep.pinStep_addNode (h : b.InStep) (template : Node) (layer : Option String) (order : List String) :
    PinStep b (.addNode template layer order) (b.storeNode (b.instantiate template layer order)) := by
  refine .added _ _ rfl (fun k => ?_) (fun k p => h.bare_instantiate) (nodePin?_storeNode b (b.instantiate template layer order))
  have hfresh : b.copy? none (b.instantiate template layer order).id = none := h.toKeyed.copy?_freshId "node" none
  unfold nodePin?
  rw [hfresh]
  rfl

theorem InStep.pinStep_removeNode (h : b.InStep) (id : String) :
    PinStep b (.removeNode id) (b.removeNode id).board := by
  cases hn : b.node? id with
  | none =>
    refine SamePins.pinStep (fun x k => ?_) _
    unfold Board.removeNode needNode
    rw [hn]
    rfl
  | some n =>
    refine .removed id n.pins.keys rfl (fun k => ?_) (h.nodePin?_removeNode hn)
    have hpin : b.nodePin? id k = n.pins.get? k := by
      unfold nodePin?
      rw [← h.node? id, hn]
      rfl
    rw [KeyMap.mem_keys, hpin]
    rfl

theorem InStep.pinStep_updateNode (h : b.InStep) {old current : Node} (hbeq : (old == current) = true)
    (hcurrent : b.node? old.id = some current) (pin : String) (value : List UInt8) :
    PinStep b (.updateNode (some old) (old.withDefault pin value)) (b.editNode old.id fun _ => old.withDefault pin value) := by
  obtain ⟨-, hold⟩ := Node.eq_of_beq_but_place hbeq
  rw [h.editNode_withDefault ((h.node? old.id).symm.trans hcurrent) hold]
  refine .kept (fun x k p => if old.id = x ∧ pin = k then { p with defaultValue := some value } else p)
    (fun x k p => ?_) fun x k => ?_
  · split <;> exact ⟨rfl, rfl, rfl, rfl, rfl⟩
  · rw [nodePin?_editNode]
    unfold nodePin? Node.withDefault
    split
    · rename_i hx
      simp only [KeyMap.get?_modify, hx, true_and]
      cases b.copy? none x with
      | none => rfl
      | some n =>
        simp only [Option.bind_some]
        split <;> simp
    · rename_i hx
      simp [hx]

/-- What a proper mutation does to the pins, whether it is carried out or refused. -/
theorem InStep.pinStep (h : b.InStep) {m : Mutation} (hm : m.Proper) : PinStep b m (b.execute m).board := by
  have hperform : PinStep b m (b.perform m).board := by
    cases hkeeps : m.keepsPins with
    | true => exact (h.samePins_perform hm hkeeps).pinStep m
    | false =>
      refine board_perform fun b' hb' => ?_
      cases hb' with
      | refused => exact SamePins.pinStep (fun _ _ => rfl) _
      | addNode => exact h.pinStep_addNode _ _ _
      | removeNode => exact h.pinStep_removeNode _
      | connect hends => exact .wired _ true (fun _ => rfl) (h.joins_of_needEnds hends) (nodePin?_setEnds b _ true)
      | disconnect hends =>
        exact .wired _ false (fun hon => by cases hon) (h.joins_of_needEnds hends) (nodePin?_setEnds b _ false)
      | @updateNode _ _ current hnode hsame =>
        obtain ⟨old, pin, value, rfl, rfl⟩ := hm
        have hbeq : (old == current) = true := by simpa [bne] using hsame
        exact h.pinStep_updateNode hbeq hnode pin value
      | removeWhole | removePart => cases hm
      | _ => cases hkeeps
  have hcount : ∀ x k, (b.execute m).board.nodePin? x k = (b.perform m).board.nodePin? x k := by
    intro x k
    exact board_execute (P := fun b' => b'.nodePin? x k = (b.perform m).board.nodePin? x k) rfl fun _ h => h
  cases hperform with
  | kept f same pins => exact .kept f same fun x k => (hcount x k).trans (pins x k)
  | added id new makes fresh bare pins => exact .added id new makes fresh bare fun x k => (hcount x k).trans (pins x k)
  | removed id gone makesNone own pins => exact .removed id gone makesNone own fun x k => (hcount x k).trans (pins x k)
  | wired w on connects ends pins => exact .wired w on connects ends fun x k => (hcount x k).trans (pins x k)

end Board

end Workboard
