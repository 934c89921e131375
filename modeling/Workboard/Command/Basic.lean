import Workboard.Json.Basic

/-! Commands: edits of a board in the words of a command writer.

A command addresses nodes and pins by references (a name it gave itself, a position in the batch, a node
type, a pin's name) where a `Mutation` needs ids. Every command may carry a summary for people. -/

namespace Workboard

/-- A requested place on the canvas. -/
structure Spot where
  x : Float
  y : Float
  deriving BEq

/-- A pin asked for on a placeholder, its types as written. -/
structure PinRequest where
  name : String
  friendlyName : String
  description : Option String
  direction : String
  dataType : String
  container : Option String
  deriving BEq

/-- A node to be made from a template of the catalog. -/
structure NodeRequest where
  nodeType : String
  ref : Option String
  spot : Option Spot
  friendlyName : Option String
  layer : Option String
  deriving BEq

/-- A step that has no template yet, with pins of its own. -/
structure PlaceholderRequest where
  name : String
  ref : Option String
  spot : Option Spot
  pins : Option (List PinRequest)
  layer : Option String
  deriving BEq

/-- Two pins, by reference. -/
structure WireRequest where
  fromNode : String
  fromPin : String
  toNode : String
  toPin : String
  deriving BEq, DecidableEq

structure VariableRequest where
  name : String
  dataType : String
  container : Option String
  value : Option Json
  description : Option String
  secret : Bool
  deriving BEq

/-- The parts of a variable that an edit sets. -/
structure VariableEdit where
  name : Option String
  value : Option Json
  description : Option String
  deriving BEq

structure CommentRequest where
  content : String
  spot : Spot
  width : Option Float
  height : Option Float
  color : Option String
  layer : Option String
  deriving BEq

/-- The parts of a comment that an edit sets. -/
structure CommentEdit where
  content : Option String
  color : Option String
  spot : Option Spot
  deriving BEq

structure LayerRequest where
  name : String
  nodes : List String
  spot : Option Spot
  color : Option String
  parent : Option String
  deriving BEq

inductive Action where
  | addNode (request : NodeRequest)
  | addPlaceholder (request : PlaceholderRequest)
  | removeNode (node : String)
  | connectPins (wire : WireRequest)
  | disconnectPins (wire : WireRequest)
  | updateNodePin (node pin : String) (value : Json)
  | moveNode (node : String) (spot : Spot) (layer : Option String)
  | createVariable (request : VariableRequest)
  | updateVariable (id : String) (edit : VariableEdit)
  | deleteVariable (id : String)
  | createComment (request : CommentRequest)
  | updateComment (id : String) (edit : CommentEdit)
  | deleteComment (id : String)
  | createLayer (request : LayerRequest)
  | addNodesToLayer (layer : String) (nodes : List String)
  | removeNodesFromLayer (layer : String) (nodes : List String)
  | removeLayer (layer : String)
  deriving BEq

structure Command where
  action : Action
  summary : Option String
  deriving BEq

namespace Action

def kind : Action → String
  | addNode _ => "AddNode"
  | addPlaceholder _ => "AddPlaceholder"
  | removeNode _ => "RemoveNode"
  | connectPins _ => "ConnectPins"
  | disconnectPins _ => "DisconnectPins"
  | updateNodePin .. => "UpdateNodePin"
  | moveNode .. => "MoveNode"
  | createVariable _ => "CreateVariable"
  | updateVariable .. => "UpdateVariable"
  | deleteVariable _ => "DeleteVariable"
  | createComment _ => "CreateComment"
  | updateComment .. => "UpdateComment"
  | deleteComment _ => "DeleteComment"
  | createLayer _ => "CreateLayer"
  | addNodesToLayer .. => "AddNodesToLayer"
  | removeNodesFromLayer .. => "RemoveNodesFromLayer"
  | removeLayer _ => "RemoveLayer"

/-- Whether the action makes a node. Such actions run before all others of a batch. -/
def createsNode : Action → Bool
  | addNode _ => true
  | addPlaceholder _ => true
  | _ => false

/-- Whether two actions of one batch ask for the same thing. -/
def repeats : Action → Action → Bool
  | addNode a, addNode b => a.nodeType = b.nodeType && a.ref = b.ref
  | addPlaceholder a, addPlaceholder b => a.name = b.name || a.ref = b.ref
  | removeNode a, removeNode b => a = b
  | connectPins a, connectPins b => a = b
  | _, _ => false

end Action

namespace Command

def kind (c : Command) : String := c.action.kind

def createsNode (c : Command) : Bool := c.action.createsNode

def repeats (c d : Command) : Bool := c.action.repeats d.action

/-- Drops every command that repeats one kept before it. The commands kept so far are given last first. -/
def dropRepeats (kept : List Command) : List Command → List Command
  | [] => kept.reverse
  | c :: r => if kept.any (·.repeats c) then dropRepeats kept r else dropRepeats (c :: kept) r

/-- A batch without repeated commands; the first of several stays. -/
def distinct (l : List Command) : List Command := dropRepeats [] l

end Command

end Workboard
