import Workboard.Board.Basic
import Workboard.Board.Forest

/-! Changes to a board.

A `Mutation` addresses everything by its id on the board. A successful one answers with the entity that it
made or changed, a `Receipt`; a `BoardError` says why one cannot be carried out. -/

namespace Workboard

/-- The two ends of a connection. -/
structure Wire where
  fromNode : String
  fromPin : String
  toNode : String
  toPin : String
  deriving DecidableEq, Repr

inductive Mutation where
  /-- Adds a copy of a template under fresh ids, handed to the pins in the order in which their map gives them. -/
  | addNode (node : Node) (layer : Option String) (order : List String)
  | removeNode (id : String)
  | connect (wire : Wire)
  | disconnect (wire : Wire)
  /-- Replaces a node, if it still is as expected. -/
  | updateNode (expected : Option Node) (node : Node)
  | moveNode (id : String) (start : Option Place) (goal : Place) (layer : Option String)
  | upsertVariable (v : Variable) (former : Option Variable)
  | removeVariable (id : String)
  | upsertComment (comment : Comment) (former : Option Comment) (layer : Option String)
  | removeComment (id : String)
  | upsertLayer (layer : Layer) (members : List String)
  | addToLayer (id : String) (members : List String)
  | removeFromLayer (id : String) (members : List String)
  | removeLayer (id : String) (keepNodes : Bool)

def Mutation.kind : Mutation → String
  | addNode .. => "AddNode"
  | removeNode .. => "RemoveNode"
  | connect .. => "ConnectPins"
  | disconnect .. => "DisconnectPins"
  | updateNode .. => "UpdateNode"
  | moveNode .. => "MoveNode"
  | upsertVariable .. => "UpsertVariable"
  | removeVariable .. => "RemoveVariable"
  | upsertComment .. => "UpsertComment"
  | removeComment .. => "RemoveComment"
  | upsertLayer .. => "UpsertLayer"
  | addToLayer .. => "AddNodesToLayer"
  | removeFromLayer .. => "RemoveNodesFromLayer"
  | removeLayer .. => "RemoveLayer"

/-- What a successful change made or changed. -/
inductive Receipt where
  | storedNode (n : Node)
  | storedVariable (v : Variable)
  | storedComment (c : Comment)
  | storedLayer (l : Layer)
  | connection (fromPin toPin : String)
  | removed (id : String)

namespace Receipt

/-- The id that stands for the change. -/
def id : Receipt → String
  | storedNode n => n.id
  | storedVariable v => v.id
  | storedComment c => c.id
  | storedLayer l => l.id
  | connection _ toPin => toPin
  | removed id => id

def node? : Receipt → Option Node
  | storedNode n => some n
  | _ => none

end Receipt

/-- Why two pins cannot be connected or disconnected. -/
inductive WireFault where
  | selfConnection (node : String)
  | wrongDirection (fromName : String) (fromDirection : Direction) (toName : String) (toDirection : Direction)
  | mixedKinds (fromName toName : String)
  | notConnected (fromPin toPin : String)

/-- Why a board refuses a change or a question. -/
inductive BoardError where
  | nodeNotFound (id : String)
  | pinNotFound (node pin : String)
  | layerNotFound (id : String)
  | variableNotFound (id : String)
  | commentNotFound (id : String)
  | climb (layer : String) (fault : ClimbFault)
  | stale (node : String)
  | invalidConnection (fault : WireFault)
  | notInLayer (node layer : String)

def WireFault.message : WireFault → String
  | selfConnection node => s!"node {node} cannot connect to itself"
  | wrongDirection fromName fromDirection toName toDirection =>
    s!"{fromName} ({fromDirection.name}) -> {toName} ({toDirection.name}) must go from an output to an input"
  | mixedKinds fromName toName => s!"{fromName} and {toName} mix execution and data pins"
  | notConnected fromPin toPin => s!"{fromPin} is not connected to {toPin}"

namespace BoardError

def kind : BoardError → String
  | nodeNotFound _ => "NodeNotFound"
  | pinNotFound .. => "PinNotFound"
  | layerNotFound _ => "LayerNotFound"
  | variableNotFound _ => "VariableNotFound"
  | commentNotFound _ => "CommentNotFound"
  | climb _ (.cycle _) => "LayerCycle"
  | climb _ .tooDeep => "LayerDepthExceeded"
  | stale _ => "Stale"
  | invalidConnection _ => "InvalidConnection"
  | notInLayer .. => "Other"

def message : BoardError → String
  | nodeNotFound id => "Node not found: " ++ id
  | pinNotFound node pin => s!"Pin not found: {pin} on node {node}"
  | layerNotFound id => "Layer not found: " ++ id
  | variableNotFound id => "Variable not found: " ++ id
  | commentNotFound id => "Comment not found: " ++ id
  | climb layer (.cycle layers) => s!"Layer cycle detected at {layer}: " ++ " -> ".intercalate layers
  | climb layer .tooDeep => s!"Layer nesting deeper than {maxLayerDepth} at {layer}"
  | stale node => s!"Stale state for {node}: expected snapshot does not match the board"
  | invalidConnection fault => "Invalid connection: " ++ fault.message
  | notInLayer node layer => s!"node {node} is not in layer {layer}"

end BoardError

end Workboard
