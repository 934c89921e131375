import Workboard.Board.Basic

/-! How the layers of a board are nested.

A parent id that names no layer counts as none, but for the length of a chain. `Board.layerPath` climbs from
a layer to its outermost ancestor and fails on a cycle or when the chain is too long; `Board.layerCycles`
reports every set of layers that are on a common cycle. -/

namespace Workboard

/-- How many layers a chain of parents may have. -/
def maxLayerDepth : Nat := 40

/-- Why a climb along the parents of a layer stopped before an outermost layer. -/
inductive ClimbFault where
  /-- The chain came back to a layer; the cycle in the order of the climb. -/
  | cycle (layers : List String)
  /-- The chain is longer than `maxLayerDepth`. -/
  | tooDeep
  deriving DecidableEq, Repr

/-- A layer met on the way up. -/
structure Rung where
  id : String
  name : String
  deriving DecidableEq, Repr

namespace Board

/-- The part of a climb from a layer on, in the order of the climb. The rungs are given last first. -/
def cycleFrom (id : String) (rungs : List Rung) : List String :=
  ((rungs.map (·.id)).takeWhile (· ≠ id) ++ [id]).reverse

/-- Climbs on from a layer id, with the rungs so far, last first. -/
def climbFrom (layers : KeyMap Layer) : Nat → List Rung → Option String → List Rung × Option ClimbFault
  | 0, rungs, _ => (rungs, none)
  | _, rungs, none => (rungs, none)
  | fuel + 1, rungs, some id =>
    -- The order counts: a repetition comes before the depth, and the depth before it is known whether the id names a layer.
    if rungs.any (·.id = id) then (rungs, some (.cycle (cycleFrom id rungs)))
    else if maxLayerDepth ≤ rungs.length then (rungs, some .tooDeep)
    else
      match layers.get? id with
      | none => (rungs, none)
      | some l => climbFrom layers fuel (⟨id, l.name⟩ :: rungs) l.parent

/-- The layers from the outermost known ancestor down to a layer, and what stopped the climb. Every step
    adds a rung, and there are at most `maxLayerDepth`. -/
def climb (b : Board) (id : String) : List Rung × Option ClimbFault :=
  climbFrom b.layers (maxLayerDepth + 2) [] (some id)

/-- The names of the layers around a layer, outermost first, and its own. -/
def layerPath (b : Board) (id : String) : Except ClimbFault (List String) :=
  match b.climb id with
  | (_, some fault) => .error fault
  | (rungs, none) => .ok (rungs.map (·.name))

/-- The names that the climb met, also when it failed. -/
def layerPathSoFar (b : Board) (id : String) : List String := (b.climb id).1.map (·.name)

/-- The layers directly inside a layer, ascending. -/
def innerLayers (b : Board) (id : String) : List String :=
  if b.layers.contains id then
    ((b.layers.values.filter fun l => l.parent = some id && b.layers.contains l.id).map (·.id)).mergeSort
      fun x y => x ≤ y
  else []

/-- Adds the inner layers of those that were reached last, so many times over. -/
def reachFrom (b : Board) : Nat → List String → List String → List String
  | 0, reached, _ => reached
  | fuel + 1, reached, last =>
    match ((last.flatMap b.innerLayers).filter (· ∉ reached)).eraseDups with
    | [] => reached
    | new => reachFrom b fuel (reached ++ new) new

/-- The layers inside a layer, at any depth of at least one. Every round adds a layer of the board. -/
def layersWithin (b : Board) (id : String) : List String := b.reachFrom b.layers.size [] [id]

/-- Every layer with the layers inside it. -/
def nesting (b : Board) : List (String × List String) := b.layers.keys.map fun id => (id, b.layersWithin id)

/-- The sets of layers on a common cycle, each ascending, and ascending by their first members. Two layers
    are on a common cycle if each is inside the other. -/
def layerCycles (b : Board) : List (List String) :=
  let nesting := b.nesting
  nesting.filterMap fun (id, within) =>
    -- Every member of a cycle finds the same set; only the first one reports it.
    match (nesting.filter fun (other, around) => other ∈ within && id ∈ around).map (·.1) with
    | first :: rest => if first = id then some (first :: rest) else none
    | [] => none

end Board

end Workboard
