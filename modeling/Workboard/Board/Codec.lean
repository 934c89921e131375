import Workboard.Board.Basic
import Workboard.Json.Shape
import Workboard.Json.Printer

/-! The JSON form of a board.

Each kind of entity has its shape, its reader from a value in the shape's normal form, and its writer.
Writing names every field, with `null` for what is absent; reading lets most fields be left out. -/

namespace Workboard

/-! ### Parts -/

/-- The shape of a whole number of so many bits without sign. -/
def Shape.word (bits : Nat) : Shape := .whole 0 (Nat.pow 2 bits - 1)

/-- The shape of a byte string: an array of numbers. -/
def Shape.bytes : Shape := .list (.word 8)

def Json.bytes? : Json → Option (List UInt8) := Json.list? fun j => j.nat?.map UInt8.ofNat

def Json.ofBytes (l : List UInt8) : Json := .array (l.map fun b => .nat b.toNat)

/-- `null` for what is absent. -/
def Json.ofMaybe (f : α → Json) : Option α → Json
  | some x => f x
  | none => .null

def Json.ofKeyMap (f : α → Json) (m : KeyMap α) : Json := .ofMap (m.mapValues fun _ => f)

def Json.ofKeySet (s : KeySet) : Json := .ofTexts s.toList

def Json.keySet? (j : Json) : Option KeySet := (j.list? Json.string?).map .ofList

namespace Place

def shape : Shape := .tuple 3 .real

def toJson (p : Place) : Json := .array [.single p.x, .single p.y, .single p.z]

def ofJson? : Json → Option Place
  | .array [x, y, z] => return ⟨← x.float32?, ← y.float32?, ← z.float32?⟩
  | _ => none

end Place

namespace Direction

def shape : Shape := .choice (all.map name)

def toJson (d : Direction) : Json := .string d.name

def ofJson? (j : Json) : Option Direction := j.string?.bind ofName?

end Direction

namespace DataType

def shape : Shape := .choice (all.map name)

def toJson (t : DataType) : Json := .string t.name

def ofJson? (j : Json) : Option DataType := j.string?.bind ofName?

end DataType

namespace Container

def shape : Shape := .choice (all.map name)

def toJson (c : Container) : Json := .string c.name

def ofJson? (j : Json) : Option Container := j.string?.bind ofName?

end Container

/-! ### Entities -/

namespace Pin

def fields : Fields := .ofList [
  ("id", .required, .text),
  ("name", .required, .text),
  ("friendly_name", .required, .text),
  ("description", .optional, .text),
  ("pin_type", .required, Direction.shape),
  ("data_type", .required, DataType.shape),
  ("value_type", .optional, Container.shape),
  ("default_value", .optional, .nullable .bytes),
  ("connected_to", .optional, .list .text),
  ("depends_on", .optional, .list .text)]

def shape : Shape := .record false fields

def toJson (p : Pin) : Json := .ofMembers [
  ("id", .string p.id),
  ("name", .string p.name),
  ("friendly_name", .string p.friendlyName),
  ("description", .string p.description),
  ("pin_type", p.direction.toJson),
  ("data_type", p.dataType.toJson),
  ("value_type", p.container.toJson),
  ("default_value", .ofMaybe .ofBytes p.defaultValue),
  ("connected_to", .ofKeySet p.connectedTo),
  ("depends_on", .ofKeySet p.dependsOn)]

def ofJson? (j : Json) : Option Pin := do
  return {
    id := ← j.field? "id" Json.string?
    name := ← j.field? "name" Json.string?
    friendlyName := ← j.field? "friendly_name" Json.string?
    description := ← j.fieldOr? "description" Json.string? ""
    direction := ← j.field? "pin_type" Direction.ofJson?
    dataType := ← j.field? "data_type" DataType.ofJson?
    container := ← j.fieldOr? "value_type" Container.ofJson? .single
    defaultValue := ← j.fieldMaybe? "default_value" Json.bytes?
    connectedTo := ← j.fieldOr? "connected_to" Json.keySet? ∅
    dependsOn := ← j.fieldOr? "depends_on" Json.keySet? ∅ }

end Pin

namespace Node

def fields : Fields := .ofList [
  ("id", .required, .text),
  ("name", .required, .text),
  ("friendly_name", .required, .text),
  ("category", .optional, .text),
  ("description", .optional, .text),
  ("comment", .optional, .nullable .text),
  ("pins", .optional, .map Pin.shape),
  ("coordinates", .optional, Place.shape),
  ("layer", .optional, .nullable .text)]

def shape : Shape := .record false fields

def toJson (n : Node) : Json := .ofMembers [
  ("id", .string n.id),
  ("name", .string n.name),
  ("friendly_name", .string n.friendlyName),
  ("category", .string n.category),
  ("description", .string n.description),
  ("comment", .ofText? n.comment),
  ("pins", .ofKeyMap Pin.toJson n.pins),
  ("coordinates", n.place.toJson),
  ("layer", .ofText? n.layer)]

def ofJson? (j : Json) : Option Node := do
  return {
    id := ← j.field? "id" Json.string?
    name := ← j.field? "name" Json.string?
    friendlyName := ← j.field? "friendly_name" Json.string?
    category := ← j.fieldOr? "category" Json.string? ""
    description := ← j.fieldOr? "description" Json.string? ""
    comment := ← j.fieldMaybe? "comment" Json.string?
    pins := ← j.fieldOr? "pins" (Json.map? Pin.ofJson?) ∅
    place := ← j.fieldOr? "coordinates" Place.ofJson? .origin
    layer := ← j.fieldMaybe? "layer" Json.string? }

end Node

namespace Layer

def fields : Fields := .ofList [
  ("id", .required, .text),
  ("name", .required, .text),
  ("comment", .optional, .nullable .text),
  ("parent_id", .optional, .nullable .text),
  ("nodes", .optional, .map Node.shape),
  ("pins", .optional, .map Pin.shape),
  ("coordinates", .optional, Place.shape),
  ("color", .optional, .nullable .text)]

def shape : Shape := .record false fields

def toJson (l : Layer) : Json := .ofMembers [
  ("id", .string l.id),
  ("name", .string l.name),
  ("comment", .ofText? l.comment),
  ("parent_id", .ofText? l.parent),
  ("nodes", .ofKeyMap Node.toJson l.nodes),
  ("pins", .ofKeyMap Pin.toJson l.pins),
  ("coordinates", l.place.toJson),
  ("color", .ofText? l.color)]

def ofJson? (j : Json) : Option Layer := do
  return {
    id := ← j.field? "id" Json.string?
    name := ← j.field? "name" Json.string?
    comment := ← j.fieldMaybe? "comment" Json.string?
    parent := ← j.fieldMaybe? "parent_id" Json.string?
    nodes := ← j.fieldOr? "nodes" (Json.map? Node.ofJson?) ∅
    pins := ← j.fieldOr? "pins" (Json.map? Pin.ofJson?) ∅
    place := ← j.fieldOr? "coordinates" Place.ofJson? .origin
    color := ← j.fieldMaybe? "color" Json.string? }

end Layer

namespace Variable

def fields : Fields := .ofList [
  ("id", .required, .text),
  ("name", .required, .text),
  ("data_type", .required, DataType.shape),
  ("value_type", .optional, Container.shape),
  ("description", .optional, .nullable .text),
  ("default_value", .optional, .nullable .bytes),
  ("secret", .optional, .flag),
  ("exposed", .optional, .flag),
  ("editable", .optional, .flag)]

def shape : Shape := .record false fields

def toJson (v : Variable) : Json := .ofMembers [
  ("id", .string v.id),
  ("name", .string v.name),
  ("data_type", v.dataType.toJson),
  ("value_type", v.container.toJson),
  ("description", .ofText? v.description),
  ("default_value", .ofMaybe .ofBytes v.defaultValue),
  ("secret", .bool v.secret),
  ("exposed", .bool v.exposed),
  ("editable", .bool v.editable)]

def ofJson? (j : Json) : Option Variable := do
  return {
    id := ← j.field? "id" Json.string?
    name := ← j.field? "name" Json.string?
    dataType := ← j.field? "data_type" DataType.ofJson?
    container := ← j.fieldOr? "value_type" Container.ofJson? .single
    description := ← j.fieldMaybe? "description" Json.string?
    defaultValue := ← j.fieldMaybe? "default_value" Json.bytes?
    secret := ← j.fieldOr? "secret" Json.bool? false
    exposed := ← j.fieldOr? "exposed" Json.bool? false
    editable := ← j.fieldOr? "editable" Json.bool? true }

end Variable

namespace Comment

def fields : Fields := .ofList [
  ("id", .required, .text),
  ("content", .required, .text),
  ("color", .optional, .nullable .text),
  ("coordinates", .optional, Place.shape),
  ("width", .optional, .nullable .real),
  ("height", .optional, .nullable .real),
  ("z_index", .optional, .nullable (.whole (-0x80000000) 0x7FFFFFFF)),
  ("author", .optional, .nullable .text),
  ("timestamp", .optional, .word 64),
  ("layer", .optional, .nullable .text)]

def shape : Shape := .record false fields

def toJson (c : Comment) : Json := .ofMembers [
  ("id", .string c.id),
  ("content", .string c.content),
  ("color", .ofText? c.color),
  ("coordinates", c.place.toJson),
  ("width", .ofMaybe .single c.width),
  ("height", .ofMaybe .single c.height),
  ("z_index", .ofMaybe (fun n => .whole n.toInt) c.depth),
  ("author", .ofText? c.author),
  ("timestamp", .nat c.timestamp.toNat),
  ("layer", .ofText? c.layer)]

def ofJson? (j : Json) : Option Comment := do
  return {
    id := ← j.field? "id" Json.string?
    content := ← j.field? "content" Json.string?
    color := ← j.fieldMaybe? "color" Json.string?
    place := ← j.fieldOr? "coordinates" Place.ofJson? .origin
    width := ← j.fieldMaybe? "width" Json.float32?
    height := ← j.fieldMaybe? "height" Json.float32?
    depth := ← j.fieldMaybe? "z_index" fun j => j.whole?.map Int32.ofInt
    author := ← j.fieldMaybe? "author" Json.string?
    timestamp := ← j.fieldOr? "timestamp" (fun j => j.nat?.map UInt64.ofNat) 0
    layer := ← j.fieldMaybe? "layer" Json.string? }

end Comment

namespace Version

def shape : Shape := .tuple 3 (.word 32)

def toJson (v : Version) : Json := .array [.nat v.major.toNat, .nat v.minor.toNat, .nat v.patch.toNat]

def ofJson? : Json → Option Version
  | .array [a, b, c] => return ⟨.ofNat (← a.nat?), .ofNat (← b.nat?), .ofNat (← c.nat?)⟩
  | _ => none

end Version

namespace Board

def fields : Fields := .ofList [
  ("id", .required, .text),
  ("name", .optional, .text),
  ("description", .optional, .text),
  ("nodes", .optional, .map Node.shape),
  ("variables", .optional, .map Variable.shape),
  ("comments", .optional, .map Comment.shape),
  ("layers", .optional, .map Layer.shape),
  ("version", .optional, Version.shape)]

def shape : Shape := .record false fields

def toJson (b : Board) : Json := .ofMembers [
  ("id", .string b.id),
  ("name", .string b.name),
  ("description", .string b.description),
  ("nodes", .ofKeyMap Node.toJson b.nodes),
  ("variables", .ofKeyMap Variable.toJson b.vars),
  ("comments", .ofKeyMap Comment.toJson b.comments),
  ("layers", .ofKeyMap Layer.toJson b.layers),
  ("version", b.version.toJson)]

def ofJson? (j : Json) : Option Board := do
  return {
    id := ← j.field? "id" Json.string?
    name := ← j.fieldOr? "name" Json.string? ""
    description := ← j.fieldOr? "description" Json.string? ""
    nodes := ← j.fieldOr? "nodes" (Json.map? Node.ofJson?) ∅
    vars := ← j.fieldOr? "variables" (Json.map? Variable.ofJson?) ∅
    comments := ← j.fieldOr? "comments" (Json.map? Comment.ofJson?) ∅
    layers := ← j.fieldOr? "layers" (Json.map? Layer.ofJson?) ∅
    version := ← j.fieldOr? "version" Version.ofJson? ⟨0, 0, 0⟩ }

end Board

/-- Takes a value in normal form to an entity. A value of the right shape always has one. -/
def Json.entity (f : Json → Option α) (j : Json) : Except Fault α :=
  match f j with
  | some x => .ok x
  | none => .error .mismatched

namespace Board

/-- Reads a board document. -/
def ofText (text : String) : Except Fault Board := do (← shape.readText text).entity ofJson?

/-- Reads a board from a JSON value. -/
def ofJson (j : Json) : Except Fault Board := do (← shape.check false j).entity ofJson?

/-- The board document, indented. -/
def document (b : Board) : String := b.toJson.pretty

end Board

end Workboard
