import Workboard.Board.Lookup
import Workboard.Command.Basic

/-! Where new nodes go that have no place of their own: on a grid to the right of the board, row by row. -/

namespace Workboard

structure Grid where
  columns : Nat
  columnSpacing : Float
  rowSpacing : Float

namespace Grid

def standard : Grid := ⟨3, 300, 200⟩

instance : Inhabited Grid := ⟨standard⟩

/-- The first cell: one column to the right of the rightmost node, at its height. -/
def start (g : Grid) (b : Board) : Spot :=
  match b.rightmost? with
  | some n => ⟨n.place.x.toFloat + g.columnSpacing, n.place.y.toFloat⟩
  | none => ⟨0, 0⟩

/-- The cell of a number. There is at least one column. -/
def cell (g : Grid) (start : Spot) (i : Nat) : Spot :=
  let columns := max g.columns 1
  ⟨start.x + (i % columns).toFloat * g.columnSpacing, start.y + (i / columns).toFloat * g.rowSpacing⟩

end Grid

end Workboard
