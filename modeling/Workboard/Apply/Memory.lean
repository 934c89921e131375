import Workboard.Apply.Session
import Workboard.Board.Execute

/-! The facility that keeps its board in memory: changes are visible at once. -/

namespace Workboard

/-- A board, and the mutations that led to it, in order. -/
structure Memory where
  board : Board
  journal : List Mutation

namespace Memory

def ofBoard (b : Board) : Memory := ⟨b, []⟩

/-- Carries a mutation out on the board; one that succeeds goes into the journal. -/
def execute (s : Memory) (m : Mutation) : Except Refusal Receipt × Memory :=
  match s.board.execute m with
  | ⟨board, .ok receipt⟩ => (.ok receipt, ⟨board, s.journal ++ [m]⟩)
  | ⟨board, .error e⟩ => (.error (.ofBoardError e), ⟨board, s.journal⟩)

def facility : Facility Memory where
  execute m s := s.execute m
  snapshot s := (.ok s.board, s)
  fence _ s := (true, s)

end Memory

end Workboard
