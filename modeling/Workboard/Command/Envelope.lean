import Workboard.Json.Printer

/-! The form in which errors are reported to other programs. -/

namespace Workboard

structure ErrorEnvelope where
  code : String
  message : String
  details : Option Json
  hint : Option String

namespace ErrorEnvelope

/-- The members in the order in which they are written. -/
def toJson (e : ErrorEnvelope) : Json := .object [
  ("code", .string e.code),
  ("message", .string e.message),
  ("details", e.details.getD .null),
  ("hint", .ofText? e.hint)]

/-- The compact text. -/
def text (e : ErrorEnvelope) : String := e.toJson.compress

end ErrorEnvelope

end Workboard
