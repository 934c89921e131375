import Workboard.Board.Basic
import Workboard.Text.Blank

/-! Node templates, found by the name of their type. -/

namespace Workboard

abbrev Catalog := List Node

/-- The template of a type: an exact name before one that differs in the case of ASCII letters. -/
def Catalog.find? (c : Catalog) (nodeType : String) : Option Node :=
  let nodeType := Text.trim nodeType
  match List.find? (·.name = nodeType) c with
  | some n => some n
  | none => List.find? (fun n => Text.asciiLower n.name = Text.asciiLower nodeType) c

end Workboard
