import Workboard.Json.Basic

/-! Messages for the user. -/

namespace Workboard

inductive NoticeIcon where
  | error
  | warning
  | info
  deriving DecidableEq, Repr

namespace NoticeIcon

def name : NoticeIcon → String
  | error => "error"
  | warning => "warning"
  | info => "info"

/-- The level at which a notice is logged. -/
def level : NoticeIcon → String
  | error => "ERROR"
  | warning => "WARN"
  | info => "INFO"

end NoticeIcon

structure Notice where
  message : String
  icon : NoticeIcon
  deriving DecidableEq, Repr

def Notice.toJson (n : Notice) : Json := .ofMembers [("message", .string n.message), ("icon", .string n.icon.name)]

end Workboard
