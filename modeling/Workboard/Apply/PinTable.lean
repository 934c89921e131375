import Workboard.Board.Basic
import Workboard.Text.Case

/-! Finding a node's pins by what a command writer calls them.

A reference to a pin is its id, its name, its name in other case, or its friendly name in any case, in this
order; of several pins that answer in the same way the one with the smallest id counts. -/

namespace Workboard

/-- The way in which a pin answered a reference. -/
inductive MatchKind where
  | id
  | name
  | nameCaseInsensitive
  | friendlyName
  deriving DecidableEq, Repr

def MatchKind.label : MatchKind → String
  | id => "Id"
  | name => "Name"
  | nameCaseInsensitive => "NameCaseInsensitive"
  | friendlyName => "FriendlyName"

/-- The pin that a reference means. -/
structure PinMatch where
  pin : String
  via : MatchKind
  deriving DecidableEq, Repr

/-- A pin as it is listed for a command writer. -/
def Pin.summary (p : Pin) : String := s!"{p.name} \"{p.friendlyName}\" ({p.direction.name}, {p.dataType.name})"

/-- The pins by id. -/
def Node.pinsById (n : Node) : List Pin := n.pins.values.mergeSort fun p q => p.id ≤ q.id

/-- The pins of a node by everything that they answer to. -/
structure PinTable where
  ids : KeySet
  byName : KeyMap String
  byLowerName : KeyMap String
  byFriendlyName : KeyMap String
  /-- The pins for people, in ascending order. -/
  summaries : List String

namespace PinTable

def empty : PinTable := ⟨∅, ∅, ∅, ∅, []⟩

/-- Adds a pin; names that are taken stay with the pin that has them. -/
def add (t : PinTable) (p : Pin) : PinTable where
  ids := t.ids.insert p.id
  byName := t.byName.insertIfNew p.name p.id
  byLowerName := t.byLowerName.insertIfNew (Text.lower p.name) p.id
  byFriendlyName := t.byFriendlyName.insertIfNew (Text.lower p.friendlyName) p.id
  summaries := t.summaries ++ [p.summary]

def ofNode (n : Node) : PinTable :=
  -- As pins come by id, a name stays with the smallest id that has it.
  let t := n.pinsById.foldl add empty
  { t with summaries := t.summaries.mergeSort fun a b => a ≤ b }

/-- The pin that a text without outer white space means. -/
def find? (t : PinTable) (ref : String) : Option PinMatch :=
  if t.ids.contains ref then some ⟨ref, .id⟩
  else
    match t.byName.get? ref with
    | some pin => some ⟨pin, .name⟩
    | none =>
      match t.byLowerName.get? (Text.lower ref) with
      | some pin => some ⟨pin, .nameCaseInsensitive⟩
      | none => (t.byFriendlyName.get? (Text.lower ref)).map (⟨·, .friendlyName⟩)

/-- The pin that a reference means; outer white space does not count. -/
def resolve? (t : PinTable) (ref : String) : Option PinMatch := t.find? (Text.trim ref)

end PinTable

end Workboard
