import Workboard.Board.MutationCodec
import Workboard.Command.Basic

/-! The JSON form of commands. A command carries its kind in `command_type`.

In text the members of a command stand in the order of its fields, the kind first. A JSON value has them by key, so the
members are given apart from the way in which an object is made of them. -/

namespace Workboard

namespace Spot

def shape : Shape := .record false (.ofList [("x", .required, .real), ("y", .required, .real)])

def toJson (s : Spot) : Json := .ofMembers [("x", .real s.x), ("y", .real s.y)]

def ofJson? (j : Json) : Option Spot := return ⟨← j.field? "x" Json.float?, ← j.field? "y" Json.float?⟩

end Spot

namespace PinRequest

def shape : Shape := .record false (.ofList [
  ("name", .required, .text),
  ("friendly_name", .required, .text),
  ("description", .optional, .nullable .text),
  ("pin_type", .required, .text),
  ("data_type", .required, .text),
  ("value_type", .optional, .nullable .text)])

def members (p : PinRequest) : List (String × Json) := [
  ("name", .string p.name),
  ("friendly_name", .string p.friendlyName),
  ("description", .ofText? p.description),
  ("pin_type", .string p.direction),
  ("data_type", .string p.dataType),
  ("value_type", .ofText? p.container)]

def ofJson? (j : Json) : Option PinRequest := do
  return {
    name := ← j.field? "name" Json.string?
    friendlyName := ← j.field? "friendly_name" Json.string?
    description := ← j.fieldMaybe? "description" Json.string?
    direction := ← j.field? "pin_type" Json.string?
    dataType := ← j.field? "data_type" Json.string?
    container := ← j.fieldMaybe? "value_type" Json.string? }

end PinRequest

/-- Any value, where `null` counts as absent. -/
def Json.present? : Json → Option Json := some

namespace Command

/-- A field that holds a string or `null`. -/
def textField (name : String) : String × Presence × Shape := (name, .optional, .nullable .text)

def spotField : String × Presence × Shape := ("position", .optional, .nullable Spot.shape)

/-- The fields of a kind of command, and the summary that every kind has last. -/
def withSummary (l : List (String × Presence × Shape)) : Fields := .ofList (l ++ [textField "summary"])

def wireFields : Fields := withSummary [
  ("from_node", .required, .text),
  ("from_pin", .required, .text),
  ("to_node", .required, .text),
  ("to_pin", .required, .text)]

def memberFields : Fields := withSummary [("layer_id", .required, .text), ("node_ids", .required, .list .text)]

def variants : Variants where
  tag := "command_type"
  cases := [
    ("AddNode", withSummary [
      ("node_type", .required, .text),
      textField "ref_id",
      spotField,
      textField "friendly_name",
      textField "target_layer"]),
    ("AddPlaceholder", withSummary [
      ("name", .required, .text),
      textField "ref_id",
      spotField,
      ("pins", .optional, .nullable (.list PinRequest.shape)),
      textField "target_layer"]),
    ("RemoveNode", withSummary [("node_id", .required, .text)]),
    ("ConnectPins", wireFields),
    ("DisconnectPins", wireFields),
    ("UpdateNodePin", withSummary [
      ("node_id", .required, .text),
      ("pin_id", .required, .text),
      ("value", .required, .any)]),
    ("MoveNode", withSummary [
      ("node_id", .required, .text),
      ("position", .required, Spot.shape),
      textField "target_layer"]),
    ("CreateVariable", withSummary [
      ("name", .required, .text),
      ("data_type", .required, .text),
      textField "value_type",
      ("default_value", .optional, .nullable .any),
      textField "description",
      ("secret", .optional, .flag)]),
    ("UpdateVariable", withSummary [
      ("variable_id", .required, .text),
      textField "name",
      ("default_value", .optional, .nullable .any),
      textField "description"]),
    ("DeleteVariable", withSummary [("variable_id", .required, .text)]),
    ("CreateComment", withSummary [
      ("content", .required, .text),
      ("position", .required, Spot.shape),
      ("width", .optional, .nullable .real),
      ("height", .optional, .nullable .real),
      textField "color",
      textField "target_layer"]),
    ("UpdateComment", withSummary [
      ("comment_id", .required, .text),
      textField "content",
      textField "color",
      spotField]),
    ("DeleteComment", withSummary [("comment_id", .required, .text)]),
    ("CreateLayer", withSummary [
      ("name", .required, .text),
      ("node_ids", .optional, .list .text),
      spotField,
      textField "color",
      textField "target_layer"]),
    ("AddNodesToLayer", memberFields),
    ("RemoveNodesFromLayer", memberFields),
    ("RemoveLayer", withSummary [("layer_id", .required, .text)])]

end Command

namespace WireRequest

def members (w : WireRequest) : List (String × Json) := [
  ("from_node", .string w.fromNode),
  ("from_pin", .string w.fromPin),
  ("to_node", .string w.toNode),
  ("to_pin", .string w.toPin)]

def ofJson? (j : Json) : Option WireRequest := do
  return {
    fromNode := ← j.field? "from_node" Json.string?
    fromPin := ← j.field? "from_pin" Json.string?
    toNode := ← j.field? "to_node" Json.string?
    toPin := ← j.field? "to_pin" Json.string? }

end WireRequest

namespace Action

/-- The members of a command besides its kind and summary, given how an object is made of its members. -/
def members (object : List (String × Json) → Json) : Action → List (String × Json)
  | addNode r => [
      ("node_type", .string r.nodeType),
      ("ref_id", .ofText? r.ref),
      ("position", .ofMaybe Spot.toJson r.spot),
      ("friendly_name", .ofText? r.friendlyName),
      ("target_layer", .ofText? r.layer)]
  | addPlaceholder r => [
      ("name", .string r.name),
      ("ref_id", .ofText? r.ref),
      ("position", .ofMaybe Spot.toJson r.spot),
      ("pins", .ofMaybe (fun l => .array (l.map fun p => object p.members)) r.pins),
      ("target_layer", .ofText? r.layer)]
  | removeNode node => [("node_id", .string node)]
  | connectPins w => w.members
  | disconnectPins w => w.members
  | updateNodePin node pin value => [("node_id", .string node), ("pin_id", .string pin), ("value", value)]
  | moveNode node spot layer => [
      ("node_id", .string node),
      ("position", spot.toJson),
      ("target_layer", .ofText? layer)]
  | createVariable r => [
      ("name", .string r.name),
      ("data_type", .string r.dataType),
      ("value_type", .ofText? r.container),
      ("default_value", r.value.getD .null),
      ("description", .ofText? r.description),
      ("secret", .bool r.secret)]
  | updateVariable id e => [
      ("variable_id", .string id),
      ("name", .ofText? e.name),
      ("default_value", e.value.getD .null),
      ("description", .ofText? e.description)]
  | deleteVariable id => [("variable_id", .string id)]
  | createComment r => [
      ("content", .string r.content),
      ("position", r.spot.toJson),
      ("width", .ofMaybe .real r.width),
      ("height", .ofMaybe .real r.height),
      ("color", .ofText? r.color),
      ("target_layer", .ofText? r.layer)]
  | updateComment id e => [
      ("comment_id", .string id),
      ("content", .ofText? e.content),
      ("color", .ofText? e.color),
      ("position", .ofMaybe Spot.toJson e.spot)]
  | deleteComment id => [("comment_id", .string id)]
  | createLayer r => [
      ("name", .string r.name),
      ("node_ids", .ofTexts r.nodes),
      ("position", .ofMaybe Spot.toJson r.spot),
      ("color", .ofText? r.color),
      ("target_layer", .ofText? r.parent)]
  | addNodesToLayer layer nodes => [("layer_id", .string layer), ("node_ids", .ofTexts nodes)]
  | removeNodesFromLayer layer nodes => [("layer_id", .string layer), ("node_ids", .ofTexts nodes)]
  | removeLayer layer => [("layer_id", .string layer)]

/-- The action of a kind, from a value in normal form. -/
def ofKind? (j : Json) : String → Option Action
  | "AddNode" => return .addNode {
      nodeType := ← j.field? "node_type" Json.string?
      ref := ← j.fieldMaybe? "ref_id" Json.string?
      spot := ← j.fieldMaybe? "position" Spot.ofJson?
      friendlyName := ← j.fieldMaybe? "friendly_name" Json.string?
      layer := ← j.fieldMaybe? "target_layer" Json.string? }
  | "AddPlaceholder" => return .addPlaceholder {
      name := ← j.field? "name" Json.string?
      ref := ← j.fieldMaybe? "ref_id" Json.string?
      spot := ← j.fieldMaybe? "position" Spot.ofJson?
      pins := ← j.fieldMaybe? "pins" (Json.list? PinRequest.ofJson?)
      layer := ← j.fieldMaybe? "target_layer" Json.string? }
  | "RemoveNode" => return .removeNode (← j.field? "node_id" Json.string?)
  | "ConnectPins" => return .connectPins (← WireRequest.ofJson? j)
  | "DisconnectPins" => return .disconnectPins (← WireRequest.ofJson? j)
  | "UpdateNodePin" =>
    return .updateNodePin (← j.field? "node_id" Json.string?) (← j.field? "pin_id" Json.string?) (← j.member? "value")
  | "MoveNode" =>
    return .moveNode (← j.field? "node_id" Json.string?) (← j.field? "position" Spot.ofJson?)
      (← j.fieldMaybe? "target_layer" Json.string?)
  | "CreateVariable" => return .createVariable {
      name := ← j.field? "name" Json.string?
      dataType := ← j.field? "data_type" Json.string?
      container := ← j.fieldMaybe? "value_type" Json.string?
      value := ← j.fieldMaybe? "default_value" Json.present?
      description := ← j.fieldMaybe? "description" Json.string?
      secret := ← j.fieldOr? "secret" Json.bool? false }
  | "UpdateVariable" => return .updateVariable (← j.field? "variable_id" Json.string?) {
      name := ← j.fieldMaybe? "name" Json.string?
      value := ← j.fieldMaybe? "default_value" Json.present?
      description := ← j.fieldMaybe? "description" Json.string? }
  | "DeleteVariable" => return .deleteVariable (← j.field? "variable_id" Json.string?)
  | "CreateComment" => return .createComment {
      content := ← j.field? "content" Json.string?
      spot := ← j.field? "position" Spot.ofJson?
      width := ← j.fieldMaybe? "width" Json.float?
      height := ← j.fieldMaybe? "height" Json.float?
      color := ← j.fieldMaybe? "color" Json.string?
      layer := ← j.fieldMaybe? "target_layer" Json.string? }
  | "UpdateComment" => return .updateComment (← j.field? "comment_id" Json.string?) {
      content := ← j.fieldMaybe? "content" Json.string?
      color := ← j.fieldMaybe? "color" Json.string?
      spot := ← j.fieldMaybe? "position" Spot.ofJson? }
  | "DeleteComment" => return .deleteComment (← j.field? "comment_id" Json.string?)
  | "CreateLayer" => return .createLayer {
      name := ← j.field? "name" Json.string?
      nodes := ← j.fieldOr? "node_ids" Json.texts? []
      spot := ← j.fieldMaybe? "position" Spot.ofJson?
      color := ← j.fieldMaybe? "color" Json.string?
      parent := ← j.fieldMaybe? "target_layer" Json.string? }
  | "AddNodesToLayer" =>
    return .addNodesToLayer (← j.field? "layer_id" Json.string?) (← j.field? "node_ids" Json.texts?)
  | "RemoveNodesFromLayer" =>
    return .removeNodesFromLayer (← j.field? "layer_id" Json.string?) (← j.field? "node_ids" Json.texts?)
  | "RemoveLayer" => return .removeLayer (← j.field? "layer_id" Json.string?)
  | _ => none

end Action

namespace Command

/-- The members of a command, given how an object is made of its members. -/
def members (object : List (String × Json) → Json) (c : Command) : List (String × Json) :=
  ("command_type", .string c.kind) :: c.action.members object ++ [("summary", .ofText? c.summary)]

def toJson (c : Command) : Json := .ofMembers (c.members .ofMembers)

/-- A command as it is written in text. -/
def printed (c : Command) : Json := .object (c.members .object)

/-- A command from a value in normal form. -/
def ofJson? (j : Json) : Option Command := do
  let kind ← j.field? "command_type" Json.string?
  return ⟨← Action.ofKind? j kind, ← j.fieldMaybe? "summary" Json.string?⟩

/-- Reads a command from a JSON value. -/
def ofJson (j : Json) : Except Fault Command := do (← variants.check j).entity ofJson?

/-- The JSON text of a batch. -/
def batchText (l : List Command) : String := (Json.array (l.map printed)).compress

/-- The version of the form that commands are written in. -/
def schemaVersion : Nat := 1

end Command

/-- One kind of record as a schema shows it: its properties and those that it cannot do without, ascending. -/
structure RecordSchema where
  name : String
  properties : List String
  required : List String

/-- The schemas of the kinds, in order. The tag is a required property of each. -/
def Variants.schemas (v : Variants) : List RecordSchema :=
  v.cases.map fun (name, fields) => {
    name
    properties := ((fields.names.map (·.1)) ++ [v.tag]).mergeSort fun x y => x ≤ y
    required := (fields.requiredNames ++ [v.tag]).mergeSort fun x y => x ≤ y }

end Workboard
