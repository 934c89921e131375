import Workboard.Apply.Catalog
import Workboard.Apply.Placeholder
import Workboard.Apply.References
import Workboard.Board.Literal

/-! From an action in the words of a command writer to a mutation by ids.

`Action.creation` gives the template of a node to be made; `Action.mutation` addresses every other action on
a view of the board. Both only read the view. -/

namespace Workboard

namespace Board

def viewLayer (view : Board) (id : String) : Except ApplyError Layer :=
  match view.layer? id with
  | some l => .ok l
  | none => .error (.layerNotFound id)

/-- A layer that is named has to exist. -/
def viewLayer? (view : Board) : Option String → Except ApplyError Unit
  | some id => (view.viewLayer id).map fun _ => ()
  | none => .ok ()

def viewVariable (view : Board) (id : String) : Except ApplyError Variable :=
  match view.vars.get? id with
  | some v => .ok v
  | none => .error (.variableNotFound id)

def viewComment (view : Board) (id : String) : Except ApplyError Comment :=
  match view.comments.get? id with
  | some c => .ok c
  | none => .error (.commentNotFound id)

/-- The middle of several nodes, and the origin if there is none. -/
def centroid (view : Board) (ids : List String) : Place :=
  match ids.filterMap view.node? with
  | [] => .origin
  | members =>
    let count := members.length.toFloat32
    let x := members.foldl (fun s n => s + n.place.x) 0
    let y := members.foldl (fun s n => s + n.place.y) 0
    ⟨x / count, y / count, 0⟩

end Board

/-- The place of a spot at a height. -/
def Spot.place (s : Spot) (z : Float32) : Place := ⟨narrow s.x, narrow s.y, z⟩

namespace References

/-- The ids of the nodes that references mean. -/
def ids (s : References) (view : Board) (refs : List String) : Except ApplyError (List String) :=
  refs.mapM fun r => (s.node view r).map (·.id)

/-- The two ends of a connection: both nodes are looked up before both pins. -/
def wire (s : References) (view : Board) (w : WireRequest) : Except ApplyError Wire := do
  let source ← s.node view w.fromNode
  let target ← s.node view w.toNode
  let output ← s.pin w.fromNode source w.fromPin
  let input ← s.pin w.toNode target w.toPin
  return ⟨source.id, output.pin, target.id, input.pin⟩

end References

/-- The stored form of a value in a command. -/
def storedValue (value : Json) : List UInt8 := Literal.encode (Literal.normalize value)

/-- The node with a default value at one of its pins. -/
def Node.withDefault (n : Node) (pin : String) (value : List UInt8) : Node :=
  { n with pins := n.pins.modify pin fun p => { p with defaultValue := some value } }

/-- A node to be made: what to make, how to refer to it, where to put it if the command says so, and the
    layer that is to own it. -/
structure Creation where
  template : Node
  ref : Option String
  spot : Option Spot
  layer : Option String

namespace NodeRequest

/-- The template with the name that is asked for, if that is not blank. -/
def template (r : NodeRequest) (c : Catalog) : Except ApplyError Node :=
  match c.find? r.nodeType with
  | some n =>
    match r.friendlyName.filter fun s => !Text.isAllBlank s with
    | some friendlyName => .ok { n with friendlyName }
    | none => .ok n
  | none => .error (.unknownNodeType r.nodeType c.length)

end NodeRequest

namespace VariableRequest

def record (r : VariableRequest) : Except ApplyError Variable := do
  let dataType ← Placeholder.need (DataType.ofLoose? r.dataType) (.variableData r.dataType)
  let container ←
    match r.container with
    | some raw => Placeholder.need (Container.ofLoose? raw) (.variableContainer raw)
    | none => pure .single
  return {
    id := ""
    name := r.name
    dataType
    container
    description := r.description
    defaultValue := r.value.map storedValue
    secret := r.secret
    exposed := false
    editable := true }

end VariableRequest

def VariableEdit.apply (e : VariableEdit) (v : Variable) : Variable :=
  { v with
    name := e.name.getD v.name
    defaultValue := (e.value.map storedValue).or v.defaultValue
    description := e.description.or v.description }

def CommentRequest.record (r : CommentRequest) (now : UInt64) : Comment where
  id := ""
  content := r.content
  color := r.color
  place := r.spot.place 0
  width := r.width.map narrow
  height := r.height.map narrow
  depth := none
  author := none
  timestamp := now
  layer := r.layer

/-- Sets what an edit gives; the height above the canvas stays. -/
def CommentEdit.apply (e : CommentEdit) (now : UInt64) (c : Comment) : Comment :=
  { c with
    content := e.content.getD c.content
    color := e.color.or c.color
    place :=
      match e.spot with
      | some s => s.place c.place.z
      | none => c.place
    timestamp := now }

namespace Action

/-- The node that an action makes. -/
def creation (a : Action) (c : Catalog) (view : Board) : Except ApplyError Creation := do
  let creation ←
    match a with
    | addNode r => do pure ⟨← r.template c, r.ref, r.spot, r.layer⟩
    | addPlaceholder r => do pure ⟨← Placeholder.node r.name (r.pins.getD []), r.ref, r.spot, r.layer⟩
    | a => .error (.unexpectedReceipt a.kind)
  view.viewLayer? creation.layer
  return creation

/-- The mutation that an action stands for. Actions that make nodes stand for none. -/
def mutation (a : Action) (s : References) (view : Board) (now : UInt64) : Except ApplyError Mutation := do
  match a with
  | addNode _ | addPlaceholder _ => .error (.unexpectedReceipt a.kind)
  | removeNode ref => return .removeNode (← s.node view ref).id
  | connectPins w => return .connect (← s.wire view w)
  | disconnectPins w => return .disconnect (← s.wire view w)
  | updateNodePin ref pin value =>
    let n ← s.node view ref
    let found ← s.pin ref n pin
    return .updateNode (some n) (n.withDefault found.pin (storedValue value))
  | moveNode ref spot layer =>
    let n ← s.node view ref
    view.viewLayer? layer
    return .moveNode n.id (some n.place) (spot.place n.place.z) layer
  | createVariable r => return .upsertVariable (← r.record) none
  | updateVariable id edit =>
    let v ← view.viewVariable id
    return .upsertVariable (edit.apply v) (some v)
  | deleteVariable id =>
    discard (view.viewVariable id)
    return .removeVariable id
  | createComment r =>
    view.viewLayer? r.layer
    return .upsertComment (r.record now) none r.layer
  | updateComment id edit =>
    let c ← view.viewComment id
    return .upsertComment (edit.apply now c) (some c) c.layer
  | deleteComment id =>
    discard (view.viewComment id)
    return .removeComment id
  | createLayer r =>
    view.viewLayer? r.parent
    let members ← s.ids view r.nodes
    let place :=
      match r.spot with
      | some spot => spot.place 0
      | none => view.centroid members
    return .upsertLayer ⟨"", r.name, none, r.parent, ∅, ∅, place, r.color⟩ members
  | addNodesToLayer layer refs =>
    discard (view.viewLayer layer)
    return .addToLayer layer (← s.ids view refs)
  | removeNodesFromLayer layer refs =>
    discard (view.viewLayer layer)
    return .removeFromLayer layer (← s.ids view refs)
  | removeLayer layer =>
    discard (view.viewLayer layer)
    return .removeLayer layer true

end Action

end Workboard
