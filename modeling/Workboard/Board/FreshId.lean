import Workboard.Board.Lookup

/-! Ids that are not in use.

A fresh id is a stem and a number, counted up from one more than there are ids in use, so at most as many
numbers are passed over as there are ids. -/

namespace Workboard

/-- The first id from a number on that is not taken. -/
def freshFrom (taken : KeySet) (stem : String) : Nat → Nat → String
  -- By now as many numbers were taken as there are ids in use, so this one is not.
  | 0, n => s!"{stem}-{n}"
  | fuel + 1, n => if taken.contains s!"{stem}-{n}" then freshFrom taken stem fuel (n + 1) else s!"{stem}-{n}"

/-- An id that is not taken. -/
def freshId (taken : KeySet) (stem : String) : String := freshFrom taken stem taken.size (taken.size + 1)

namespace Board

/-- The ids in use: of nodes and their pins, of layers and their boundary pins, of variables and
    comments. -/
def usedIds (b : Board) : List String :=
  (b.allNodes.flatMap fun n => n.id :: n.pins.keys) ++ (b.layers.values.flatMap fun l => l.id :: l.pins.keys)
    ++ b.vars.keys ++ b.comments.keys

def takenIds (b : Board) : KeySet := .ofList b.usedIds

end Board

end Workboard
