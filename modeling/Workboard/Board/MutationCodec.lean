import Workboard.Board.Codec
import Workboard.Board.Mutation

/-! The JSON form of mutations and of their receipts. A mutation carries its kind in `command_type`. -/

namespace Workboard

namespace Wire

def fields : Fields := .ofList [
  ("from_node", .required, .text),
  ("from_pin", .required, .text),
  ("to_node", .required, .text),
  ("to_pin", .required, .text)]

def members (w : Wire) : List (String × Json) := [
  ("from_node", .string w.fromNode),
  ("from_pin", .string w.fromPin),
  ("to_node", .string w.toNode),
  ("to_pin", .string w.toPin)]

def ofJson? (j : Json) : Option Wire := do
  return {
    fromNode := ← j.field? "from_node" Json.string?
    fromPin := ← j.field? "from_pin" Json.string?
    toNode := ← j.field? "to_node" Json.string?
    toPin := ← j.field? "to_pin" Json.string? }

end Wire

/-- A list of strings. -/
def Json.texts? : Json → Option (List String) := Json.list? Json.string?

namespace Mutation

def variants : Variants where
  tag := "command_type"
  cases := [
    ("AddNode", .ofList [
      ("node", .required, Node.shape),
      ("current_layer", .optional, .nullable .text)]),
    ("RemoveNode", .ofList [("node_id", .required, .text)]),
    ("ConnectPins", Wire.fields),
    ("DisconnectPins", Wire.fields),
    ("UpdateNode", .ofList [
      ("old_node", .nullable, .nullable Node.shape),
      ("node", .required, Node.shape)]),
    ("MoveNode", .ofList [
      ("node_id", .required, .text),
      ("from_coordinates", .nullable, .nullable Place.shape),
      ("to_coordinates", .required, Place.shape),
      ("current_layer", .optional, .nullable .text)]),
    ("UpsertVariable", .ofList [
      ("variable", .required, Variable.shape),
      ("old_variable", .nullable, .nullable Variable.shape)]),
    ("RemoveVariable", .ofList [("variable_id", .required, .text)]),
    ("UpsertComment", .ofList [
      ("comment", .required, Comment.shape),
      ("old_comment", .nullable, .nullable Comment.shape),
      ("current_layer", .optional, .nullable .text)]),
    ("RemoveComment", .ofList [("comment_id", .required, .text)]),
    ("UpsertLayer", .ofList [
      ("layer", .required, Layer.shape),
      ("node_ids", .optional, .list .text)]),
    ("AddNodesToLayer", .ofList [
      ("layer_id", .required, .text),
      ("node_ids", .required, .list .text)]),
    ("RemoveNodesFromLayer", .ofList [
      ("layer_id", .required, .text),
      ("node_ids", .required, .list .text)]),
    ("RemoveLayer", .ofList [
      ("layer_id", .required, .text),
      ("preserve_nodes", .optional, .flag)])]

/-- The members besides the kind. -/
def members : Mutation → List (String × Json)
  | addNode node layer _ => [("node", node.toJson), ("current_layer", .ofText? layer)]
  | removeNode id => [("node_id", .string id)]
  | connect w => w.members
  | disconnect w => w.members
  | updateNode expected node => [("old_node", .ofMaybe Node.toJson expected), ("node", node.toJson)]
  | moveNode id start goal layer => [
      ("node_id", .string id),
      ("from_coordinates", .ofMaybe Place.toJson start),
      ("to_coordinates", goal.toJson),
      ("current_layer", .ofText? layer)]
  | upsertVariable v former => [("variable", v.toJson), ("old_variable", .ofMaybe Variable.toJson former)]
  | removeVariable id => [("variable_id", .string id)]
  | upsertComment c former layer => [
      ("comment", c.toJson),
      ("old_comment", .ofMaybe Comment.toJson former),
      ("current_layer", .ofText? layer)]
  | removeComment id => [("comment_id", .string id)]
  | upsertLayer l ids => [("layer", l.toJson), ("node_ids", .ofTexts ids)]
  | addToLayer id ids => [("layer_id", .string id), ("node_ids", .ofTexts ids)]
  | removeFromLayer id ids => [("layer_id", .string id), ("node_ids", .ofTexts ids)]
  | removeLayer id keepNodes => [("layer_id", .string id), ("preserve_nodes", .bool keepNodes)]

def toJson (m : Mutation) : Json := .ofMembers (("command_type", .string m.kind) :: m.members)

/-- The mutation of a kind, from a value in normal form. -/
def ofKind? (j : Json) : String → Option Mutation
  -- The text says nothing of the order of the pins.
  | "AddNode" => return .addNode (← j.field? "node" Node.ofJson?) (← j.fieldMaybe? "current_layer" Json.string?) []
  | "RemoveNode" => return .removeNode (← j.field? "node_id" Json.string?)
  | "ConnectPins" => return .connect (← Wire.ofJson? j)
  | "DisconnectPins" => return .disconnect (← Wire.ofJson? j)
  | "UpdateNode" => return .updateNode (← j.fieldMaybe? "old_node" Node.ofJson?) (← j.field? "node" Node.ofJson?)
  | "MoveNode" =>
    return .moveNode (← j.field? "node_id" Json.string?) (← j.fieldMaybe? "from_coordinates" Place.ofJson?)
      (← j.field? "to_coordinates" Place.ofJson?) (← j.fieldMaybe? "current_layer" Json.string?)
  | "UpsertVariable" =>
    return .upsertVariable (← j.field? "variable" Variable.ofJson?) (← j.fieldMaybe? "old_variable" Variable.ofJson?)
  | "RemoveVariable" => return .removeVariable (← j.field? "variable_id" Json.string?)
  | "UpsertComment" =>
    return .upsertComment (← j.field? "comment" Comment.ofJson?) (← j.fieldMaybe? "old_comment" Comment.ofJson?)
      (← j.fieldMaybe? "current_layer" Json.string?)
  | "RemoveComment" => return .removeComment (← j.field? "comment_id" Json.string?)
  | "UpsertLayer" =>
    return .upsertLayer (← j.field? "layer" Layer.ofJson?) (← j.fieldOr? "node_ids" Json.texts? [])
  | "AddNodesToLayer" =>
    return .addToLayer (← j.field? "layer_id" Json.string?) (← j.field? "node_ids" Json.texts?)
  | "RemoveNodesFromLayer" =>
    return .removeFromLayer (← j.field? "layer_id" Json.string?) (← j.field? "node_ids" Json.texts?)
  | "RemoveLayer" =>
    return .removeLayer (← j.field? "layer_id" Json.string?) (← j.fieldOr? "preserve_nodes" Json.bool? true)
  | _ => none

/-- Reads a mutation from a JSON value. -/
def ofJson (j : Json) : Except Fault Mutation := do
  (← variants.check j).entity fun j => (j.field? "command_type" Json.string?).bind (ofKind? j)

end Mutation

namespace Receipt

/-- The kind of entity that a receipt carries. -/
def entity : Receipt → String
  | storedNode _ => "node"
  | storedVariable _ => "variable"
  | storedComment _ => "comment"
  | storedLayer _ => "layer"
  | connection .. => "connection"
  | removed _ => "removed"

def value : Receipt → Json
  | storedNode n => n.toJson
  | storedVariable v => v.toJson
  | storedComment c => c.toJson
  | storedLayer l => l.toJson
  | connection fromPin toPin => .ofMembers [("from_pin", .string fromPin), ("to_pin", .string toPin)]
  | removed id => .ofMembers [("id", .string id)]

def toJson (r : Receipt) : Json := .ofMembers [("entity", .string r.entity), ("value", r.value)]

/-- The shape of the value that goes with a kind of entity. -/
def valueShape? : String → Option Shape
  | "node" => some Node.shape
  | "variable" => some Variable.shape
  | "comment" => some Comment.shape
  | "layer" => some Layer.shape
  | "connection" => some (.record false (.ofList [("from_pin", .required, .text), ("to_pin", .required, .text)]))
  | "removed" => some (.record false (.ofList [("id", .required, .text)]))
  | _ => none

def ofEntity? (j : Json) : String → Option Receipt
  | "node" => return .storedNode (← Node.ofJson? j)
  | "variable" => return .storedVariable (← Variable.ofJson? j)
  | "comment" => return .storedComment (← Comment.ofJson? j)
  | "layer" => return .storedLayer (← Layer.ofJson? j)
  | "connection" => return .connection (← j.field? "from_pin" Json.string?) (← j.field? "to_pin" Json.string?)
  | "removed" => return .removed (← j.field? "id" Json.string?)
  | _ => none

/-- The kinds of entities that a receipt carries. -/
def entities : List String := ["node", "variable", "comment", "layer", "connection", "removed"]

/-- The two parts of a receipt, the kind of entity and the value, from a record or from an array of both. -/
def parts? : Json → Option (Json × Json)
  | .array [entity, value] => some (entity, value)
  | j => return (← j.member? "entity", ← j.member? "value")

/-- Reads a receipt from a JSON value. -/
def ofJson (j : Json) : Except Fault Receipt :=
  match parts? j with
  | some (entity, value) => do
    match ← (Shape.choice entities).check false entity with
    | .string entity =>
      match valueShape? entity with
      | some shape => (← shape.check false value).entity (ofEntity? · entity)
      | none => .error .mismatched
    | _ => .error .mismatched
  | none => .error .mismatched

end Receipt

end Workboard
