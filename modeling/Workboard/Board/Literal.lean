import Workboard.Json.Printer
import Workboard.Json.Draft

/-! Default values of pins and variables: JSON text in UTF-8, and how a value is shown. -/

namespace Workboard.Literal

/-- The stored form of a value. -/
def encode (value : Json) : List UInt8 := value.compress.toUTF8.toList

/-- The value of a stored form; none if the bytes are not JSON text. -/
def decode? (bytes : List UInt8) : Option Json := do
  if bytes.isEmpty then none
  else
    let text ← String.fromUTF8? ⟨bytes.toArray⟩
    (Json.ofText text).toOption

/-- A value as people read it: strings as they are, nothing for `null`, other values as JSON text. -/
def display : Json → String
  | .string s => s
  | .null => ""
  | value => value.compress

/-- A string without one pair of quotes around it, if it has such a pair. -/
def unquote (s : String) : String :=
  match s.toList with
  | '"' :: r => if r.getLast? = some '"' then .ofList r.dropLast else s
  | _ => s

/-- Command writers often quote a string twice; the outer quotes are dropped. -/
def normalize : Json → Json
  | .string s => .string (unquote s)
  | value => value

end Workboard.Literal
