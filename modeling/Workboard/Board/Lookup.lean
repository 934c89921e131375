import Workboard.Board.Basic

/-! Finding nodes and pins on a board.

A node may be kept at board level, in the layer that owns it, or in both. The board's copy counts before the
layers'.

The maps are gone through in ascending key order, although hash maps have none. That decides only which of
several counts: of differing copies in layers (`node?`, `allNodes`) that of the layer with the smallest id, and of
nodes that are equally far to the right (`rightmost?`) the last. Where every node is stored under its own id, in
one layer at most, and one alone is the rightmost, nothing depends on the order. What is made of a board that is
loaded again, in other maps, takes the orders as an argument (`Board.Orders`). -/

namespace Workboard

/-- The nodes whose id none before them has. -/
def Node.distinct (seen : List String) : List Node → List Node
  | [] => []
  | n :: r => if n.id ∈ seen then distinct seen r else n :: distinct (n.id :: seen) r

/-- The larger of two coordinates' nodes; the second also wins a tie and what cannot be compared. -/
def Node.rightmostOf (m n : Node) : Node := if n.place.x < m.place.x then m else n

namespace Board

/-- The node at an id. -/
def node? (b : Board) (id : String) : Option Node :=
  match b.nodes.get? id with
  | some n => some n
  | none => b.layers.values.findSome? (·.nodes.get? id)

/-- Every stored copy of a node: the board's, and then each layer's. -/
def nodeCopies (b : Board) : List Node := b.nodes.values ++ b.layers.values.flatMap (·.nodes.values)

/-- Every node once, by its id. -/
def allNodes (b : Board) : List Node := Node.distinct [] b.nodeCopies

/-- The orders in which the hash maps of a board give what they hold, by the keys that come first. -/
structure Orders where
  nodes : List String := []
  layers : List String := []
  /-- Of the nodes in the layer at a key. -/
  members : String → List String := fun _ => []
  /-- Of the pins of the node with an id. -/
  pins : String → List String := fun _ => []
  comments : List String := []
  vars : List String := []

/-- Every stored copy of a node, in the given orders. -/
def copiesIn (b : Board) (orders : Orders) : List Node :=
  b.nodes.valuesIn orders.nodes
    ++ (b.layers.entriesIn orders.layers).flatMap fun e => e.2.nodes.valuesIn (orders.members e.1)

/-- Every node once, by its id, if the copies are met in the given orders. -/
def nodesIn (b : Board) (orders : Orders) : List Node := Node.distinct [] (b.copiesIn orders)

def layer? (b : Board) (id : String) : Option Layer := b.layers.get? id

/-- The pin of an id, on a node or else on a layer's boundary. -/
def pin? (b : Board) (id : String) : Option Pin :=
  match b.allNodes.findSome? (·.pins.get? id) with
  | some p => some p
  | none => b.layers.values.findSome? (·.pins.get? id)

/-- The node that has a pin. -/
def nodeOfPin? (b : Board) (id : String) : Option Node := b.allNodes.find? (·.pins.contains id)

/-- The node farthest to the right; of several the last in the order of `allNodes`. -/
def rightmost? (b : Board) : Option Node :=
  match b.allNodes with
  | [] => none
  | n :: r => some (r.foldl Node.rightmostOf n)

def nodeCount (b : Board) : Nat := b.allNodes.length

end Board

end Workboard
