import Workboard.Board.Mutation

/-! Why a command of a batch cannot be applied. -/

namespace Workboard

/-- Why a facility refuses a mutation. -/
inductive RefusalKind where
  /-- It makes no sense on the board. -/
  | rejected
  /-- It was made for an older state of the board. -/
  | stale
  /-- Something that it addresses does not exist. -/
  | notFound
  /-- The facility could not be reached. -/
  | unavailable
  deriving DecidableEq, Repr

def RefusalKind.label : RefusalKind → String
  | rejected => "rejected"
  | stale => "stale version"
  | notFound => "not found"
  | unavailable => "unavailable"

/-- A facility's refusal. -/
structure Refusal where
  kind : RefusalKind
  message : String
  deriving DecidableEq, Repr

/-- The refusal by which a board's error is reported. -/
def Refusal.ofBoardError (e : BoardError) : Refusal where
  kind :=
    match e with
    | .stale _ => .stale
    | .nodeNotFound _ | .pinNotFound .. | .layerNotFound _ | .variableNotFound _ | .commentNotFound _ => .notFound
    | .climb .. | .invalidConnection _ | .notInLayer .. => .rejected
  message := e.message

/-- What is wrong with a value in a command. -/
inductive ValueFault where
  | pinUnnamed
  | pinRepeated (pin : String)
  | pinDirection (pin raw : String)
  | pinData (pin raw : String)
  | pinContainer (pin raw : String)
  | variableData (raw : String)
  | variableContainer (raw : String)
  deriving DecidableEq, Repr

namespace ValueFault

/-- Where in the command the value stands. -/
def field : ValueFault → String
  | pinUnnamed => "pins.name"
  | pinRepeated pin => s!"pins.{pin}.name"
  | pinDirection pin _ => s!"pins.{pin}.pin_type"
  | pinData pin _ => s!"pins.{pin}.data_type"
  | pinContainer pin _ => s!"pins.{pin}.value_type"
  | variableData _ => "data_type"
  | variableContainer _ => "value_type"

def reason : ValueFault → String
  | pinUnnamed => "placeholder pin names must not be empty"
  | pinRepeated _ => "duplicate pin name"
  | pinDirection _ raw => s!"unknown pin type '{raw}'"
  | pinData _ raw => s!"unknown data type '{raw}'"
  | pinContainer _ raw => s!"unknown value type '{raw}'"
  | variableData raw => s!"unknown variable type '{raw}'"
  | variableContainer raw => s!"unknown value type '{raw}'"

end ValueFault

inductive ApplyError where
  | unknownNodeType (nodeType : String) (catalogSize : Nat)
  /-- No node answers to the reference; the references that would do. -/
  | nodeNotFound (ref : String) (known : List String)
  /-- No pin of the node answers to the reference; the pins that there are. -/
  | pinNotFound (nodeRef node pin : String) (available : List String)
  | variableNotFound (id : String)
  | commentNotFound (id : String)
  | layerNotFound (id : String)
  | invalidValue (fault : ValueFault)
  /-- The facility answered with something that is no node. -/
  | unexpectedReceipt (kind : String)
  | refused (refusal : Refusal)
  deriving DecidableEq, Repr

namespace ApplyError

def kind : ApplyError → String
  | unknownNodeType .. => "UnknownNodeType"
  | nodeNotFound .. => "NodeNotFound"
  | pinNotFound .. => "PinNotFound"
  | variableNotFound _ => "VariableNotFound"
  | commentNotFound _ => "CommentNotFound"
  | layerNotFound _ => "LayerNotFound"
  | invalidValue _ => "InvalidValue"
  | unexpectedReceipt _ => "UnexpectedResponse"
  | refused _ => "Mutation"

def message : ApplyError → String
  | unknownNodeType nodeType size => s!"Node type '{nodeType}' is not in the catalog ({size} types available)"
  | nodeNotFound ref known => s!"Node '{ref}' not found. Known references: [" ++ ", ".intercalate known ++ "]"
  | pinNotFound nodeRef node pin available =>
    s!"Pin '{pin}' not found on node '{nodeRef}' (resolved to {node}). Available pins: ["
      ++ ", ".intercalate available ++ "]"
  | variableNotFound id => "Variable not found: " ++ id
  | commentNotFound id => "Comment not found: " ++ id
  | layerNotFound id => "Layer not found: " ++ id
  | invalidValue fault => s!"Invalid {fault.field}: {fault.reason}"
  | unexpectedReceipt kind => s!"Unexpected {kind} response from mutation facility"
  | refused r => s!"mutation {r.kind.label}: {r.message}"

end ApplyError

end Workboard
