import Workboard.Apply.Notice

/-! What came of a batch. -/

namespace Workboard

inductive CommandStatus where
  /-- The id of what was made or changed. -/
  | applied (entity : String)
  | failed (reason : String)
  deriving DecidableEq, Repr

/-- What came of one command. -/
structure Outcome where
  /-- The command's position in the batch. -/
  index : Nat
  kind : String
  status : CommandStatus
  deriving DecidableEq, Repr

namespace Outcome

def isApplied (o : Outcome) : Bool :=
  match o.status with
  | .applied _ => true
  | .failed _ => false

def entity? (o : Outcome) : Option String :=
  match o.status with
  | .applied id => some id
  | .failed _ => none

def reason? (o : Outcome) : Option String :=
  match o.status with
  | .applied _ => none
  | .failed reason => some reason

def toJson (o : Outcome) : Json :=
  let status :=
    match o.status with
    | .applied _ => [("status", Json.string "applied")]
    | .failed reason => [("status", .string "failed"), ("reason", .string reason)]
  .ofMembers ([("index", .nat o.index), ("kind", .string o.kind), ("entity_id", .ofText? o.entity?)] ++ status)

end Outcome

/-- A node that the batch made, and what it answers to. -/
structure CreatedNode where
  node : String
  aliases : List String
  deriving DecidableEq, Repr

def CreatedNode.toJson (c : CreatedNode) : Json :=
  .ofMembers [("node_id", .string c.node), ("aliases", .ofTexts c.aliases)]

structure Report where
  /-- In the order in which the commands were carried out. -/
  outcomes : List Outcome
  created : List CreatedNode
  /-- Whether the board has to be fetched again. -/
  refetch : Bool
  deriving DecidableEq, Repr

namespace Report

def applied (r : Report) : Nat := r.outcomes.countP (·.isApplied)

def failed (r : Report) : Nat := r.outcomes.length - r.applied

/-- The outcome of the command at a position. -/
def outcome? (r : Report) (index : Nat) : Option Outcome := r.outcomes.find? (·.index = index)

def toJson (r : Report) : Json := .ofMembers [
  ("outcomes", .array (r.outcomes.map Outcome.toJson)),
  ("created", .array (r.created.map CreatedNode.toJson)),
  ("refetch_required", .bool r.refetch)]

end Report

end Workboard
