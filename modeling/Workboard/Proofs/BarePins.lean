import Mathlib
import Workboard.Apply.Addressing
import Workboard.Proofs.PinStep

/-! What references depend on.

To find a node and its pins only the node's id and the ids, names, directions and types of its pins count, not what the
pins are connected to and which default values they have. So boards whose nodes are alike in this (`Board.SameBare`) have
the same answers. -/

namespace Workboard

/-- A pin without connections and default value. -/
def Pin.bare (p : Pin) : Pin := { p with connectedTo := ∅, dependsOn := ∅, defaultValue := none }

/-- A node with nothing but its id and its pins, which have neither connections nor default values. -/
def Node.bare (n : Node) : Node := ⟨n.id, "", "", "", "", none, n.pins.mapValues fun _ => Pin.bare, .origin, none⟩

variable {m n : Node} {p : Pin} {s : References} {b b' : Board}

namespace Node

theorem get?_bare (n : Node) (k : String) : n.bare.pins.get? k = (n.pins.get? k).map Pin.bare :=
  KeyMap.get?_mapValues _ n.pins k

theorem contains_bare (n : Node) (k : String) : n.bare.pins.contains k = n.pins.contains k := by
  unfold KeyMap.contains
  rw [get?_bare, Option.isSome_map]

theorem keys_bare (n : Node) : n.bare.pins.keys = n.pins.keys := KeyMap.keys_mapValues _ n.pins

theorem values_bare (n : Node) : n.bare.pins.values = n.pins.values.map Pin.bare := by
  simp [bare, KeyMap.values, KeyMap.mapValues, Function.comp_def]

theorem pinsById_bare (n : Node) : n.bare.pinsById = n.pinsById.map Pin.bare := by
  unfold pinsById
  rw [values_bare]
  exact (List.map_mergeSort (f := Pin.bare) fun _ _ _ _ => rfl).symm

theorem id_eq_of_bare (h : m.bare = n.bare) : m.id = n.id := by
  have hid : m.bare.id = n.bare.id := congrArg id h
  exact hid

theorem bare_congr (hid : m.id = n.id) (hpins : ∀ k, (m.pins.get? k).map Pin.bare = (n.pins.get? k).map Pin.bare) :
    m.bare = n.bare := by
  have hbare : m.pins.mapValues (fun _ => Pin.bare) = n.pins.mapValues fun _ => Pin.bare := by
    refine KeyMap.ext fun k => ?_
    rw [KeyMap.get?_mapValues, KeyMap.get?_mapValues]
    exact hpins k
  rw [bare, bare, hid, hbare]

/-- A change of connections and default values only. -/
theorem bare_mapValues {f : String → Pin → Pin} (hf : ∀ k p, (f k p).bare = p.bare) (n : Node) :
    ({ n with pins := n.pins.mapValues f } : Node).bare = n.bare :=
  bare_congr rfl fun k => by simp only [KeyMap.get?_mapValues, Option.map_map, Function.comp_def, hf]

theorem bare_editPin {f : Pin → Pin} (hf : ∀ p, (f p).bare = p.bare) (n : Node) (pin : String) :
    (n.editPin pin f).bare = n.bare :=
  bare_congr rfl fun k => by
    simp only [editPin, KeyMap.get?_modify]
    split
    · simp only [Option.map_map, Function.comp_def, hf]
    · rfl

theorem bare_disconnectFrom (n : Node) (gone : List String) : (n.disconnectFrom gone).bare = n.bare :=
  bare_mapValues (f := fun _ p => { p with connectedTo := p.connectedTo.eraseAll gone, dependsOn := p.dependsOn.eraseAll gone })
    (fun _ _ => rfl) n

theorem bare_withDefault (n : Node) (pin : String) (value : List UInt8) : (n.withDefault pin value).bare = n.bare :=
  n.bare_editPin (f := fun p => { p with defaultValue := some value }) (fun _ => rfl) pin

theorem bare_setEnds (n : Node) (key : String) (w : Wire) (on : Bool) : (n.setEnds key w on).bare = n.bare :=
  bare_mapValues (f := fun k p => p.setEnd key k w on) (fun _ _ => rfl) n

end Node

theorem PinTable.ofNode_bare (n : Node) : ofNode n.bare = ofNode n := by
  have hadd : ∀ (t : PinTable) (l : List Pin), (l.map Pin.bare).foldl add t = l.foldl add t := by
    intro t l
    rw [List.foldl_map]
    rfl
  unfold ofNode
  rw [Node.pinsById_bare, hadd]

namespace References

theorem pin_bare (s : References) (nodeRef : String) (n : Node) (pinRef : String) :
    s.pin nodeRef n.bare pinRef = s.pin nodeRef n pinRef := by
  unfold pin table recorded?
  simp only [Node.keys_bare, Node.contains_bare, PinTable.ofNode_bare]
  rfl

/-- The node that a reference means, if any: of an alias the one that holds it, as the board has it. -/
theorem toOption_node (s : References) (b : Board) (ref : String) : (s.node b ref).toOption =
    match s.aliases.get? (Text.trim ref) with
    | some held => some ((b.node? held.node.id).getD held.node)
    | none => b.node? (Text.trim ref) := by
  unfold node
  dsimp only
  cases s.aliases.get? (Text.trim ref) with
  | some held => rfl
  | none => cases b.node? (Text.trim ref) <;> rfl

/-- Nodes that are alike but for connections and default values have the same pins by the same references. -/
theorem pin_congr (h : m.bare = n.bare) (nodeRef pinRef : String) : s.pin nodeRef m pinRef = s.pin nodeRef n pinRef := by
  rw [← pin_bare, h, pin_bare]

/-- Of the nodes of a connection only ids, names, directions and types count. -/
theorem toOption_wire (s : References) (b : Board) (r : WireRequest) : (s.wire b r).toOption =
    ((s.node b r.fromNode).toOption.map Node.bare).bind fun source =>
      ((s.node b r.toNode).toOption.map Node.bare).bind fun target =>
        (s.pin r.fromNode source r.fromPin).toOption.bind fun output =>
          (s.pin r.toNode target r.toPin).toOption.map fun input => ⟨source.id, output.pin, target.id, input.pin⟩ := by
  unfold wire
  cases s.node b r.fromNode with
  | error e => rfl
  | ok source =>
    cases s.node b r.toNode with
    | error e => rfl
    | ok target =>
      show (s.pin r.fromNode source r.fromPin >>= fun output => s.pin r.toNode target r.toPin >>= fun input =>
        pure ⟨source.id, output.pin, target.id, input.pin⟩ : Except ApplyError Wire).toOption =
        (s.pin r.fromNode source.bare r.fromPin).toOption.bind fun output =>
          (s.pin r.toNode target.bare r.toPin).toOption.map fun input => ⟨source.id, output.pin, target.id, input.pin⟩
      rw [pin_bare, pin_bare]
      cases s.pin r.fromNode source r.fromPin with
      | error e => rfl
      | ok output => cases s.pin r.toNode target r.toPin <;> rfl

end References

/-- The nodes of two boards are alike but for connections and default values. -/
def Board.SameBare (b b' : Board) : Prop := ∀ x, (b'.node? x).map Node.bare = (b.node? x).map Node.bare

namespace Board.SameBare

theorem refl (b : Board) : b.SameBare b := fun _ => rfl

theorem trans {b'' : Board} (h : b.SameBare b') (h' : b'.SameBare b'') : b.SameBare b'' := fun x => (h' x).trans (h x)

theorem node (h : b.SameBare b') (s : References) (ref : String) :
    (s.node b' ref).toOption.map Node.bare = (s.node b ref).toOption.map Node.bare := by
  rw [References.toOption_node, References.toOption_node]
  cases s.aliases.get? (Text.trim ref) with
  | none => exact h (Text.trim ref)
  | some held =>
    dsimp only
    have hheld := h held.node.id
    cases hb : b.node? held.node.id with
    | none =>
      rw [hb, Option.map_none, Option.map_eq_none_iff] at hheld
      rw [hheld]
    | some n =>
      rw [hb, Option.map_some, Option.map_eq_some_iff] at hheld
      obtain ⟨n', hn', hbare⟩ := hheld
      rw [hn']
      exact congrArg some hbare

/-- A connection is addressed in the same way. -/
theorem wire (h : b.SameBare b') (s : References) (r : WireRequest) : (s.wire b' r).toOption = (s.wire b r).toOption := by
  rw [References.toOption_wire, References.toOption_wire, h.node, h.node]

end Board.SameBare

end Workboard
