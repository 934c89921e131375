import Workboard.Text.Blank
import Workboard.Text.Digits

/-! How long a batch waits for a facility that cannot tell when a change is visible. -/

namespace Workboard

/-- The points of a batch at which it waits for the facility. -/
inductive SettlePoint where
  /-- Before every command but the first that makes no node. -/
  | betweenCommands
  /-- After two pins were connected. -/
  | afterConnect
  deriving DecidableEq, Repr

def SettlePoint.label : SettlePoint → String
  | betweenCommands => "BetweenCommands"
  | afterConnect => "AfterConnect"

/-- Waiting times in milliseconds. -/
structure Pauses where
  betweenCommands : Nat
  afterConnect : Nat
  deriving DecidableEq, Repr

namespace Pauses

def standard : Pauses := ⟨50, 100⟩

/-- No waiting. -/
def zero : Pauses := ⟨0, 0⟩

/-- The longest waiting time. -/
def longest : Nat := 5000

def time (p : Pauses) : SettlePoint → Nat
  | .betweenCommands => p.betweenCommands
  | .afterConnect => p.afterConnect

/-- A waiting time from a setting; one that is missing or no number counts as the usual time. -/
def ofSetting (usual : Nat) (setting : Option String) : Nat :=
  min longest ((setting.bind fun s => Text.word64? (Text.trimChars s.toList)).getD usual)

/-- The waiting times from two settings. -/
def ofSettings (betweenCommands afterConnect : Option String) : Pauses :=
  ⟨ofSetting standard.betweenCommands betweenCommands, ofSetting standard.afterConnect afterConnect⟩

end Pauses

end Workboard
