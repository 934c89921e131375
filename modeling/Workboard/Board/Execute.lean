import Workboard.Board.FreshId
import Workboard.Board.Mutation

/-! Carrying out mutations on a board.

Every change is put together from a few elementary ones: `editNode` changes all copies of a node,
`dropNode` removes them, `assignLayer` moves a node to another layer and its copy with it, and entities are
put into or taken out of their maps. `Board.execute` carries a mutation out and counts it in the version;
a refused mutation changes nothing on a board whose nodes are stored under their own ids. -/

namespace Workboard

/-- The board after a mutation, and its answer. -/
structure Effect where
  board : Board
  result : Except BoardError Receipt

/-- Goes on if a condition holds; otherwise nothing changes. -/
def Effect.given (b : Board) (condition : Except BoardError α) (next : α → Effect) : Effect :=
  match condition with
  | .ok x => next x
  | .error e => ⟨b, .error e⟩

/-- Whether a pin has a connection to one of the given pins. -/
def Pin.touches (p : Pin) (pins : List String) : Bool :=
  p.connectedTo.toList.any (· ∈ pins) || p.dependsOn.toList.any (· ∈ pins)

/-- Changes the pin at an id. -/
def Node.editPin (n : Node) (pin : String) (f : Pin → Pin) : Node := { n with pins := n.pins.modify pin f }

/-- The node without its connections to the given pins. -/
def Node.disconnectFrom (n : Node) (gone : List String) : Node :=
  { n with
    pins := n.pins.mapValues fun _ p =>
      { p with connectedTo := p.connectedTo.eraseAll gone, dependsOn := p.dependsOn.eraseAll gone } }

namespace Board

/-! ### Elementary changes -/

/-- Changes every copy of a node. -/
def editNode (b : Board) (id : String) (f : Node → Node) : Board :=
  { b with
    nodes := b.nodes.modify id f
    layers := b.layers.mapValues fun _ l => { l with nodes := l.nodes.modify id f } }

/-- Removes the copies of a node from the layers. -/
def unmirror (b : Board) (id : String) : Board :=
  { b with layers := b.layers.mapValues fun _ l => { l with nodes := l.nodes.erase id } }

/-- Removes every copy of a node. -/
def dropNode (b : Board) (id : String) : Board := { b.unmirror id with nodes := b.nodes.erase id }

/-- Puts a node on the board, and a copy into its layer if that exists. -/
def storeNode (b : Board) (n : Node) : Board :=
  { b with
    nodes := b.nodes.insert n.id n
    layers :=
      match n.layer with
      | some layer => b.layers.modify layer fun l => { l with nodes := l.nodes.insert n.id n }
      | none => b.layers }

/-- Makes a layer, or the root canvas, the owner of a node. -/
def assignLayer (b : Board) (id : String) (layer : Option String) : Board :=
  match b.node? id with
  -- Copies are taken out of all layers, whichever the node says it is in.
  | some n => (b.unmirror id).storeNode { n with layer }
  | none => b

/-- Makes a layer the owner of several nodes, one after the other. -/
def assignLayers (b : Board) (ids : List String) (layer : Option String) : Board :=
  ids.foldl (fun b id => b.assignLayer id layer) b

/-! ### Conditions -/

def needNode (b : Board) (id : String) : Except BoardError Node :=
  match b.node? id with
  | some n => .ok n
  | none => .error (.nodeNotFound id)

def needLayer (b : Board) (id : String) : Except BoardError Layer :=
  match b.layer? id with
  | some l => .ok l
  | none => .error (.layerNotFound id)

/-- A layer that is named has to exist. -/
def needLayer? (b : Board) : Option String → Except BoardError Unit
  | some id => (b.needLayer id).map fun _ => ()
  | none => .ok ()

def needNodes (b : Board) (ids : List String) : Except BoardError Unit :=
  match ids.find? fun id => (b.node? id).isNone with
  | some id => .error (.nodeNotFound id)
  | none => .ok ()

def needPin (n : Node) (node pin : String) : Except BoardError Pin :=
  match n.pins.get? pin with
  | some p => .ok p
  | none => .error (.pinNotFound node pin)

/-! ### Nodes -/

/-- Pins with fresh ids and no connections. -/
def renewPins (taken : KeySet) : List Pin → List Pin
  | [] => []
  | p :: r =>
    let id := freshId taken "pin"
    { p with id, connectedTo := ∅, dependsOn := ∅ } :: renewPins (taken.insert id) r

/-- A copy of a template under fresh ids. The pins get theirs in the given order. -/
def instantiate (b : Board) (template : Node) (layer : Option String) (order : List String) : Node :=
  let taken := b.takenIds
  let id := freshId taken "node"
  let pins := renewPins (taken.insert id) (template.pins.valuesIn order)
  { template with id, pins := .ofList (pins.map fun p => (p.id, p)), layer }

def addNode (b : Board) (template : Node) (layer : Option String) (order : List String) : Effect :=
  .given b (b.needLayer? layer) fun _ =>
    let n := b.instantiate template layer order
    ⟨b.storeNode n, .ok (.storedNode n)⟩

/-- The nodes with a connection to one of the given pins. -/
def neighbours (b : Board) (pins : List String) : List String :=
  (b.allNodes.filter fun n => n.pins.values.any (·.touches pins)).map (·.id)

def removeNode (b : Board) (id : String) : Effect :=
  .given b (b.needNode id) fun n =>
    let gone := n.pins.keys
    -- Neighbours are looked for once the node is gone, so it is none of them.
    let rest := b.dropNode id
    ⟨(rest.neighbours gone).foldl (fun b other => b.editNode other (·.disconnectFrom gone)) rest, .ok (.removed n.id)⟩

def updateNode (b : Board) (expected : Option Node) (n : Node) : Effect :=
  .given b (b.needNode n.id) fun current =>
    if expected.any (· != current) then ⟨b, .error (.stale n.id)⟩
    else ⟨b.editNode n.id fun _ => n, .ok (.storedNode n)⟩

/-- The layer that a node moves to; none if it stays where it is. -/
def layerChange (n : Node) (layer : Option String) : Option String := if n.layer = layer then none else layer

def moveNode (b : Board) (id : String) (goal : Place) (layer : Option String) : Effect :=
  .given b (b.needNode id) fun n =>
    .given b (b.needLayer? (layerChange n layer)) fun _ =>
      let moved := b.editNode id fun n => { n with place := goal }
      let settled :=
        match layerChange n layer with
        | some layer => moved.assignLayer id (some layer)
        | none => moved
      -- The answer has the node as it is now, in its new layer.
      ⟨settled, (settled.needNode id).map .storedNode⟩

/-! ### Connections -/

/-- The pins that two ends name, if they can be connected. -/
def needEnds (b : Board) (w : Wire) : Except BoardError Unit := do
  let source ← b.needNode w.fromNode
  let target ← b.needNode w.toNode
  let output ← needPin source w.fromNode w.fromPin
  let input ← needPin target w.toNode w.toPin
  if w.fromNode = w.toNode then .error (.invalidConnection (.selfConnection w.fromNode))
  else if output.direction ≠ .output ∨ input.direction ≠ .input then
    .error (.invalidConnection (.wrongDirection output.name output.direction input.name input.direction))
  else if output.isExecution ≠ input.isExecution then
    .error (.invalidConnection (.mixedKinds output.name input.name))
  else .ok ()

/-- Whether the output lists the input. -/
def isConnected (b : Board) (w : Wire) : Bool :=
  (b.node? w.fromNode).any fun n => (n.pins.get? w.fromPin).any (·.connectedTo.contains w.toPin)

def connect (b : Board) (w : Wire) : Effect :=
  .given b (b.needEnds w) fun _ =>
    let b := b.editNode w.fromNode (·.editPin w.fromPin fun p => { p with connectedTo := p.connectedTo.insert w.toPin })
    let b := b.editNode w.toNode (·.editPin w.toPin fun p => { p with dependsOn := p.dependsOn.insert w.fromPin })
    ⟨b, .ok (.connection w.fromPin w.toPin)⟩

def disconnect (b : Board) (w : Wire) : Effect :=
  .given b (b.needEnds w) fun _ =>
    if b.isConnected w then
      let b := b.editNode w.fromNode (·.editPin w.fromPin fun p => { p with connectedTo := p.connectedTo.erase w.toPin })
      let b := b.editNode w.toNode (·.editPin w.toPin fun p => { p with dependsOn := p.dependsOn.erase w.fromPin })
      ⟨b, .ok (.connection w.fromPin w.toPin)⟩
    else ⟨b, .error (.invalidConnection (.notConnected w.fromPin w.toPin))⟩

/-! ### Variables and comments -/

def upsertVariable (b : Board) (v : Variable) : Effect :=
  let v := if v.id = "" then { v with id := freshId b.takenIds "var" } else v
  ⟨{ b with vars := b.vars.insert v.id v }, .ok (.storedVariable v)⟩

def removeVariable (b : Board) (id : String) : Effect :=
  match b.vars.get? id with
  | some v => ⟨{ b with vars := b.vars.erase id }, .ok (.removed v.id)⟩
  | none => ⟨b, .error (.variableNotFound id)⟩

def upsertComment (b : Board) (c : Comment) (layer : Option String) : Effect :=
  .given b (b.needLayer? layer) fun _ =>
    let c := if layer.isSome then { c with layer } else c
    let c := if c.id = "" then { c with id := freshId b.takenIds "comment" } else c
    ⟨{ b with comments := b.comments.insert c.id c }, .ok (.storedComment c)⟩

def removeComment (b : Board) (id : String) : Effect :=
  match b.comments.get? id with
  | some c => ⟨{ b with comments := b.comments.erase id }, .ok (.removed c.id)⟩
  | none => ⟨b, .error (.commentNotFound id)⟩

/-! ### Layers -/

def upsertLayer (b : Board) (l : Layer) (members : List String) : Effect :=
  .given b (b.needLayer? l.parent) fun _ =>
    .given b (b.needNodes members) fun _ =>
      let l := if l.id = "" then { l with id := freshId b.takenIds "layer" } else l
      let l :=
        match b.layers.get? l.id with
        -- A layer that is replaced keeps its copies; those that are given do not count.
        | some existing => { l with nodes := existing.nodes }
        | none => l
      let b := { b with layers := b.layers.insert l.id l }.assignLayers members (some l.id)
      ⟨b, (b.needLayer l.id).map .storedLayer⟩

def addToLayer (b : Board) (id : String) (members : List String) : Effect :=
  .given b (b.needLayer id) fun _ =>
    .given b (b.needNodes members) fun _ =>
      let b := b.assignLayers members (some id)
      ⟨b, (b.needLayer id).map .storedLayer⟩

/-- Every listed node has to be in the layer. -/
def needMembers (b : Board) (id : String) (members : List String) : Except BoardError Unit :=
  match members.find? fun m => !(b.node? m).any (·.layer = some id) with
  | some m => .error (.notInLayer m id)
  | none => .ok ()

def removeFromLayer (b : Board) (id : String) (members : List String) : Effect :=
  .given b (b.needLayer id) fun l =>
    .given b (b.needNodes members) fun _ =>
      .given b (b.needMembers id members) fun _ =>
        let b := b.assignLayers members l.parent
        ⟨b, (b.needLayer id).map .storedLayer⟩

/-- Removes nodes one after the other, up to the first that cannot be removed. -/
def removeNodes (b : Board) : List String → Board × Except BoardError Unit
  | [] => (b, .ok ())
  | id :: r =>
    match b.removeNode id with
    | ⟨b, .ok _⟩ => b.removeNodes r
    | ⟨b, .error e⟩ => (b, .error e)

/-- The nodes that say they are in a layer. -/
def membersOf (b : Board) (id : String) : List String := (b.allNodes.filter (·.layer = some id)).map (·.id)

/-- Removes a layer from the board and puts its parent in its place everywhere. -/
def dissolveLayer (b : Board) (id : String) (parent : Option String) : Board :=
  { b with
    layers := (b.layers.mapValues fun _ l => if l.parent = some id then { l with parent } else l).erase id
    comments := b.comments.mapValues fun _ c => if c.layer = some id then { c with layer := parent } else c }

def removeLayer (b : Board) (id : String) (keepNodes : Bool) : Effect :=
  .given b (b.needLayer id) fun l =>
    -- The nodes tell where they are; copies in the layer do not count.
    let members := b.membersOf id
    if keepNodes then ⟨(b.assignLayers members l.parent).dissolveLayer id l.parent, .ok (.removed id)⟩
    else
      match b.removeNodes members with
      | (b, .ok _) => ⟨b.dissolveLayer id l.parent, .ok (.removed id)⟩
      | (b, .error e) => ⟨b, .error e⟩

/-! ### Mutations -/

/-- What a mutation does, apart from the version. -/
def perform (b : Board) : Mutation → Effect
  | .addNode node layer order => b.addNode node layer order
  | .removeNode id => b.removeNode id
  | .connect w => b.connect w
  | .disconnect w => b.disconnect w
  | .updateNode expected node => b.updateNode expected node
  | .moveNode id _ goal layer => b.moveNode id goal layer
  | .upsertVariable v _ => b.upsertVariable v
  | .removeVariable id => b.removeVariable id
  | .upsertComment c _ layer => b.upsertComment c layer
  | .removeComment id => b.removeComment id
  | .upsertLayer l members => b.upsertLayer l members
  | .addToLayer id members => b.addToLayer id members
  | .removeFromLayer id members => b.removeFromLayer id members
  | .removeLayer id keepNodes => b.removeLayer id keepNodes

/-- Counts a change in the version. -/
def countChange (b : Board) : Board := { b with version := { b.version with patch := b.version.patch + 1 } }

/-- Carries a mutation out; one that succeeds is counted in the version. -/
def execute (b : Board) (m : Mutation) : Effect :=
  match b.perform m with
  | ⟨b, .ok receipt⟩ => ⟨b.countChange, .ok receipt⟩
  | effect => effect

end Board

end Workboard
