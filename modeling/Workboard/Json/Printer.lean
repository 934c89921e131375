import Workboard.Decimal.Layout
import Workboard.Json.Basic

/-! The text of a JSON value: compact (`Json.compress`), or indented by two spaces (`Json.pretty`).

Strings escape the quote, the backslash and the control characters and nothing else. Numbers are written
with the fewest digits that read back, in positional form for magnitudes from `1e-5` up to below `1e16`
and with a signed exponent otherwise, and a whole binary number keeps its `.0`. -/

namespace Workboard

/-- The style of numbers in JSON text. -/
def Layout.json : Layout := ⟨-5, 16, true⟩

namespace JsonNumber

/-- The text of a floating-point number; one that is not finite has none. -/
def realText (r : Reading) : String :=
  match r with
  | .finite negative b => Layout.json.write negative b.shortest
  | _ => "null"

def text : JsonNumber → String
  | .whole n => toString n
  | .real x => realText (.ofFloat x)
  | .single x => realText (.ofFloat32 x)

end JsonNumber

namespace Json

/-- A hexadecimal digit, in lower case. -/
def hexDigit (n : Nat) : Char := Nat.digitChar (n % 16)

/-- One character of a string between quotes. -/
def escape (c : Char) : List Char :=
  match c with
  | '"' => ['\\', '"']
  | '\\' => ['\\', '\\']
  | '\x08' => ['\\', 'b']
  | '\x09' => ['\\', 't']
  | '\x0a' => ['\\', 'n']
  | '\x0c' => ['\\', 'f']
  | '\x0d' => ['\\', 'r']
  | c => if c.toNat < 0x20 then ['\\', 'u', '0', '0', hexDigit (c.toNat / 16), hexDigit c.toNat] else [c]

/-- A string between quotes. -/
def quote (s : String) : List Char := '"' :: s.toList.flatMap escape ++ ['"']

mutual

/-- The characters of the compact text. -/
def chars : Json → List Char
  | .null => "null".toList
  | .bool true => "true".toList
  | .bool false => "false".toList
  | .number n => n.text.toList
  | .string s => quote s
  | .array items => '[' :: itemChars items ++ [']']
  | .object members => '\x7b' :: memberChars members ++ ['\x7d']

def itemChars : List Json → List Char
  | [] => []
  | [x] => chars x
  | x :: r => chars x ++ ',' :: itemChars r

def memberChars : List (String × Json) → List Char
  | [] => []
  | [(k, x)] => quote k ++ ':' :: chars x
  | (k, x) :: r => quote k ++ ':' :: chars x ++ ',' :: memberChars r

end

/-- The compact text: no blank anywhere outside strings. -/
def compress (j : Json) : String := .ofList j.chars

/-- A line break and the indentation of a level. -/
def lineBreak (level : Nat) : List Char := '\n' :: List.replicate (2 * level) ' '

mutual

/-- The characters of the indented text at a level of nesting. -/
def prettyChars (level : Nat) : Json → List Char
  | .array [] => ['[', ']']
  | .array items => '[' :: prettyItems (level + 1) items ++ lineBreak level ++ [']']
  | .object [] => ['\x7b', '\x7d']
  | .object members => '\x7b' :: prettyMembers (level + 1) members ++ lineBreak level ++ ['\x7d']
  | .null => "null".toList
  | .bool true => "true".toList
  | .bool false => "false".toList
  | .number n => n.text.toList
  | .string s => quote s

def prettyItems (level : Nat) : List Json → List Char
  | [] => []
  | [x] => lineBreak level ++ prettyChars level x
  | x :: r => lineBreak level ++ prettyChars level x ++ ',' :: prettyItems level r

def prettyMembers (level : Nat) : List (String × Json) → List Char
  | [] => []
  | [(k, x)] => lineBreak level ++ quote k ++ ':' :: ' ' :: prettyChars level x
  | (k, x) :: r => lineBreak level ++ quote k ++ ':' :: ' ' :: prettyChars level x ++ ',' :: prettyMembers level r

end

/-- The text with one item or member a line, indented by two spaces a level. -/
def pretty (j : Json) : String := .ofList (j.prettyChars 0)

end Json

end Workboard
