import Workboard.Command.Codec

/-! Schemas of JSON documents, as JSON. -/

namespace Workboard

def Json.typed (name : String) (more : List (String × Json)) : Json := .ofMembers (("type", .string name) :: more)

mutual

/-- The schema of a shape. -/
def Shape.schema : Shape → Json
  | .any => .bool true
  | .text => .typed "string" []
  | .flag => .typed "boolean" []
  | .real => .typed "number" []
  | .whole least greatest => .typed "integer" [("minimum", .whole least), ("maximum", .whole greatest)]
  | .choice names => .ofMembers [("enum", .ofTexts names)]
  | .nullable s => .ofMembers [("anyOf", .array [s.schema, .typed "null" []])]
  | .list s => .typed "array" [("items", s.schema)]
  | .map s => .typed "object" [("additionalProperties", s.schema)]
  | .tuple n s => .typed "array" [("items", s.schema), ("minItems", .nat n), ("maxItems", .nat n)]
  | .record strict fields =>
    .typed "object" ([("properties", .ofMembers fields.schemas), ("required", .ofTexts fields.requiredNames)]
      ++ if strict then [("additionalProperties", .bool false)] else [])

def Fields.schemas : Fields → List (String × Json)
  | .nil => []
  | .cons name _ s rest => (name, s.schema) :: rest.schemas

end

/-- The schema of a family of records: one of its kinds. -/
def Variants.schema (v : Variants) : Json :=
  .ofMembers [("oneOf", .array (v.cases.map fun (name, fields) =>
    .typed "object" [
      ("properties", .ofMembers ((v.tag, .ofMembers [("const", .string name)]) :: fields.schemas)),
      ("required", .ofTexts (v.tag :: fields.requiredNames))]))]

/-- The schema of a list of commands. -/
def Command.batchSchema : Json :=
  .typed "array" [("title", .string "Array_of_BoardCommand"), ("items", Command.variants.schema)]

end Workboard
