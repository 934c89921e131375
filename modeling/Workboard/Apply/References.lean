import Workboard.Apply.Error
import Workboard.Apply.PinTable
import Workboard.Board.Lookup

/-! What the commands of one batch may call nodes.

A node made by the batch answers to aliases: the reference that its command gave it, `$N` for its position,
its own id, and the name of its type. Aliases come before ids of the board. Several nodes may ask for one
alias; then the strongest reason wins, and of equal reasons the latest. -/

namespace Workboard

/-- The reasons for an alias, weakest first. -/
inductive AliasRank where
  | typeName
  /-- The position in the batch, or the node's id. -/
  | positional
  | explicit
  deriving DecidableEq, Repr

def AliasRank.strength : AliasRank → Nat
  | typeName => 0
  | positional => 1
  | explicit => 2

/-- The holder of an alias. -/
structure Holder where
  node : Node
  rank : AliasRank

structure References where
  aliases : KeyMap Holder
  /-- The pins of nodes, by alias or id. -/
  tables : KeyMap PinTable

namespace References

/-- At the start of a batch the pins of every node on the board are known. -/
def seed (b : Board) : References where
  aliases := ∅
  tables := b.allNodes.foldl (fun tables n => tables.insert n.id (.ofNode n)) ∅

/-- The aliases that a node asks for. -/
def requests (n : Node) (ref : Option String) (position : Nat) : List (String × AliasRank) :=
  ((ref.map Text.trim).filter (· ≠ "")).toList.map (·, .explicit)
    ++ [(s!"${position}", .positional), (n.id, .positional), (n.name, .typeName)]

/-- Whether a request for an alias is granted. -/
def grants (s : References) (name : String) (rank : AliasRank) : Bool :=
  match s.aliases.get? name with
  | some held => held.rank.strength ≤ rank.strength
  | none => true

def bind (s : References) (name : String) (rank : AliasRank) (n : Node) (table : PinTable) : References where
  aliases := s.aliases.insert name ⟨n, rank⟩
  tables := s.tables.insert name table

/-- Deals with a node's requests in order; the aliases granted so far are given and returned. A text is
    granted only once. -/
def grantAll (n : Node) (table : PinTable) : References → List String → List (String × AliasRank) → References × List String
  | s, granted, [] => (s, granted)
  | s, granted, (name, rank) :: r =>
    if name ∉ granted ∧ s.grants name rank then grantAll n table (s.bind name rank n table) (granted ++ [name]) r
    else grantAll n table s granted r

/-- Registers a node that the batch made, and tells its aliases. -/
def register (s : References) (n : Node) (ref : Option String) (position : Nat) : References × List String :=
  grantAll n (.ofNode n) s [] (requests n ref position)

/-- The id of the node that holds an alias. -/
def id? (s : References) (ref : String) : Option String := (s.aliases.get? (Text.trim ref)).map (·.node.id)

/-- Every reference that a command may use, ascending. -/
def known (s : References) (b : Board) : List String :=
  (KeySet.ofList (s.aliases.keys ++ b.allNodes.map (·.id))).toList

/-- The node that a reference means, as the board has it. -/
def node (s : References) (b : Board) (ref : String) : Except ApplyError Node :=
  let ref := Text.trim ref
  match s.aliases.get? ref with
  -- A node that the board does not show stands for itself, as it was made.
  | some held => .ok ((b.node? held.node.id).getD held.node)
  | none =>
    match b.node? ref with
    | some n => .ok n
    | none => .error (.nodeNotFound ref (s.known b))

/-- The table recorded for a reference or for the node's id. -/
def recorded? (s : References) (nodeRef : String) (n : Node) : Option PinTable :=
  match s.tables.get? (Text.trim nodeRef) with
  | some table => some table
  | none => s.tables.get? n.id

/-- The recorded table if it knows every pin of the node, else a new one. -/
def table (s : References) (nodeRef : String) (n : Node) : PinTable :=
  -- A table without some pin of the node is from before that pin.
  match (s.recorded? nodeRef n).filter fun t => n.pins.keys.all t.ids.contains with
  | some t => t
  | none => .ofNode n

/-- The pin of a node that a reference means. -/
def pin (s : References) (nodeRef : String) (n : Node) (pinRef : String) : Except ApplyError PinMatch :=
  let t := s.table nodeRef n
  -- The table may still have a pin that is gone.
  match (t.resolve? pinRef).filter fun found => n.pins.contains found.pin with
  | some found => .ok found
  | none => .error (.pinNotFound nodeRef n.id pinRef t.summaries)

/-- How many nodes the batch made. -/
def createdCount (s : References) : Nat := (KeySet.ofList (s.aliases.values.map (·.node.id))).size

end References

end Workboard
