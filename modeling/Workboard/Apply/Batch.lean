import Workboard.Apply.Addressing
import Workboard.Apply.Grid
import Workboard.Apply.Report
import Workboard.Apply.Session

/-! Applying a batch of commands through a facility.

Commands that make nodes come first, so that all others can refer to them; otherwise the order of the batch
is kept. A command that fails is reported and skipped. The nodes made are added to a local view of the
board, and the view is fetched again once it may have become outdated. -/

namespace Workboard

/-- What a batch is applied with. -/
structure Setting where
  catalog : Catalog
  grid : Grid
  pauses : Pauses
  /-- The time stamp of comments that are made or changed, in milliseconds. -/
  now : UInt64

/-- What one run of a batch comes by: its setting, and the orders of hash maps. -/
structure Occasion extends Setting where
  /-- The order in which the template of the `n`-th node gives its pins. -/
  pinOrder : Nat → List String

/-- A setting in which all maps are in ascending order. -/
instance : Coe Setting Occasion := ⟨fun t => ⟨t, fun _ => []⟩⟩

/-- A command and its position in the batch. -/
structure Item where
  index : Nat
  command : Command

/-- How far a batch has come. -/
structure Progress where
  refs : References
  /-- The board as far as it is known. -/
  view : Board
  outcomes : List Outcome
  created : List CreatedNode
  notices : List Notice

namespace Progress

def begin (b : Board) : Progress := ⟨.seed b, b, [], [], []⟩

def applied (s : Progress) (i : Item) (entity : String) : Progress :=
  { s with outcomes := s.outcomes ++ [⟨i.index, i.command.kind, .applied entity⟩] }

/-- Reports a failure, to the caller and to the user. -/
def failed (s : Progress) (i : Item) (e : ApplyError) : Progress :=
  { s with
    outcomes := s.outcomes ++ [⟨i.index, i.command.kind, .failed e.message⟩]
    notices := s.notices ++ [⟨s!"{i.command.kind} (command {i.index}) failed: {e.message}", .error⟩] }

/-- Takes in a node that an item has made. -/
def addNode (s : Progress) (i : Item) (ref : Option String) (n : Node) : Progress :=
  let (refs, aliases) := s.refs.register n ref i.index
  { s.applied i n.id with
    refs
    -- The copy in the layer of the node comes with the next snapshot.
    view := { s.view with nodes := s.view.nodes.insert n.id n }
    created := s.created ++ [⟨n.id, aliases⟩] }

/-- Whether the last item was applied. -/
def lastApplied (s : Progress) : Bool := s.outcomes.getLast?.any (·.isApplied)

end Progress

namespace Batch

/-- Makes the node of an item; it goes to the given cell if the command names no spot. Its pins are in the given order. -/
def create (t : Occasion) (s : Progress) (cell : Spot) (order : List String) (i : Item) : Session Progress :=
  match i.command.action.creation t.catalog s.view with
  | .error e => .done (s.failed i e)
  | .ok c =>
    .execute (.addNode { c.template with place := (c.spot.getD cell).place 0 } c.layer order) fun
      | .error r => .done (s.failed i (.refused r))
      | .ok receipt =>
        match receipt.node? with
        | some n => .done (s.addNode i c.ref n)
        | none => .done (s.failed i (.unexpectedReceipt "AddNode"))

/-- Makes the nodes of items in order. The cells of the grid from a number on are for them. -/
def createAll (t : Occasion) (start : Spot) : Nat → Progress → List Item → Session Progress
  | _, s, [] => .done s
  | n, s, i :: r => do
    -- Each item uses up its cell, also if it names a spot or fails.
    let s ← create t s (t.grid.cell start n) (t.pinOrder n) i
    createAll t start (n + 1) s r

/-- Replaces the view by the board as it is now. If that cannot be had the old view stays, and what needs a
    fresh one fails. -/
def refresh (s : Progress) (i : Item) : Session (Except ApplyError Progress) :=
  .snapshot fun
    | .ok view => .done (.ok { s with view })
    | .error r =>
      match i.command.action with
      -- It would put the whole node back as it was in the old view.
      | .updateNodePin .. => .done (.error (.refused r))
      | _ => .done (.ok s)

/-- Carries out an item on the view as it is. -/
def perform (t : Occasion) (s : Progress) (i : Item) : Session Progress :=
  match i.command.action.mutation s.refs s.view t.now with
  | .error e => .done (s.failed i e)
  | .ok m =>
    .execute m fun
      | .error r => .done (s.failed i (.refused r))
      | .ok receipt => .done (s.applied i receipt.id)

/-- Whether the view has to be fetched before an action. A pin's value is set on the node as it is now. -/
def needsFresh (outdated : Bool) (a : Action) : Bool :=
  match a with
  | .updateNodePin .. => true
  | _ => outdated

/-- Carries out an item, on a fresh view if it needs one. -/
def carryOut (t : Occasion) (outdated : Bool) (s : Progress) (i : Item) : Session Progress := do
  if needsFresh outdated i.command.action then
    match ← refresh s i with
    | .ok s => perform t s i
    | .error e => return s.failed i e
  else perform t s i

/-- Waits after two pins were connected. -/
def settleConnection (t : Occasion) (i : Item) : Session Unit :=
  match i.command.action with
  | .connectPins _ => .settle t.pauses .afterConnect
  | _ => .done ()

/-- Carries out items in order. The view is outdated as soon as one of them was applied. -/
def carryOutAll (t : Occasion) (outdated : Bool) (s : Progress) : List Item → Session Progress
  | [] => .done s
  | i :: r => do
    -- Nodes that were made count, so only the first command of all is not waited for.
    if !s.outcomes.isEmpty then .settle t.pauses .betweenCommands
    let s ← carryOut t outdated s i
    if s.lastApplied then
      settleConnection t i
      carryOutAll t true s r
    else carryOutAll t outdated s r

/-- The commands of a batch with their positions. -/
def items (commands : List Command) : List Item := commands.zipIdx.map fun (c, i) => ⟨i, c⟩

/-- Applies a batch to a board that the facility holds, and returns what came of it and what the user has
    to be told. -/
def apply (t : Occasion) (b : Board) (commands : List Command) : Session (Report × List Notice) := do
  let (creations, others) := (items commands).partition (·.command.createsNode)
  let s ← createAll t (t.grid.start b) 0 (.begin b) creations
  let s ← carryOutAll t false s others
  return (⟨s.outcomes, s.created, true⟩, s.notices)

end Batch

end Workboard
