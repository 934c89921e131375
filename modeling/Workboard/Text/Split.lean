/-! Cutting a text at marks. -/

namespace Workboard.Text

/-- The pieces of a text between the characters with a property, the empty ones too. -/
def splitAt (p : Char → Bool) : List Char → List (List Char)
  | [] => [[]]
  | c :: r =>
    if p c then [] :: splitAt p r
    else
      match splitAt p r with
      | [] => [[c]]
      | first :: rest => (c :: first) :: rest

end Workboard.Text
