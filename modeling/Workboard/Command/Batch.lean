import Workboard.Command.Codec

/-! Command batches in text.

A batch is a JSON array of commands, an object with the array as `commands`, or free text with such JSON in
blocks between `<commands>` and `</commands>`. Repeated commands are dropped, the first stays. -/

namespace Workboard

/-- Why a text is no batch. -/
inductive BatchFault where
  | notJson (fault : Fault)
  | notCommands (fault : Fault)
  | wrongShape
  deriving DecidableEq, Repr

/-- Why a text is no batch, and the number of the block in which this shows, if the text has blocks. -/
structure BatchError where
  block : Option Nat
  fault : BatchFault
  deriving DecidableEq, Repr

/-- What is said of a fault, the general before the particular. -/
def BatchFault.parts : BatchFault → List String
  | notJson f => ["command batch is not valid JSON", f.name]
  | notCommands f => ["invalid board command in batch", f.name]
  | wrongShape => ["expected a JSON array of commands or an object with a `commands` field"]

def BatchError.parts (e : BatchError) : List String :=
  match e.block with
  | some n => s!"in <commands> block {n}" :: e.fault.parts
  | none => e.fault.parts

def BatchError.message (e : BatchError) : String := ": ".intercalate e.parts

namespace Batch

def openTag : List Char := "<commands>".toList

def closeTag : List Char := "</commands>".toList

/-- Cuts a text at the first place where the mark stands, and drops the mark. -/
def cutAt (mark : List Char) : List Char → Option (List Char × List Char)
  | [] => if mark.isEmpty then some ([], []) else none
  | c :: r =>
    if mark.isPrefixOf (c :: r) then some ([], (c :: r).drop mark.length)
    else (cutAt mark r).map fun (before, after) => (c :: before, after)

/-- The contents of the blocks of a text, at most so many. -/
def blocksWithin : Nat → List Char → List (List Char)
  | 0, _ => []
  | fuel + 1, text =>
    match cutAt openTag text with
    | none => []
    | some (_, body) =>
      match cutAt closeTag body with
      | none => []
      | some (block, rest) => block :: blocksWithin fuel rest

/-- The contents of the blocks of a text. Every block takes at least its tags from the text. -/
def blocks (text : List Char) : List (List Char) := blocksWithin text.length text

/-- The commands of a JSON text, repeats included. -/
def readJson (text : String) : Except BatchFault (List Command) := do
  let commands (items : List Json) : Except BatchFault (List Command) :=
    (items.mapM Command.ofJson).mapError .notCommands
  match ← (Json.ofText (Text.trim text)).mapError .notJson with
  | .array items => commands items
  | j =>
    match j.member? "commands" with
    | some (.array items) => commands items
    -- A member of the name settles the form, so its value is at fault.
    | some _ => .error (.notCommands .mismatched)
    | none => .error .wrongShape

/-- The commands of numbered blocks. -/
def readBlocks : Nat → List (List Char) → Except BatchError (List Command)
  | _, [] => .ok []
  | n, block :: r => do
    let first ← (readJson (.ofList block)).mapError (⟨some n, ·⟩)
    return first ++ (← readBlocks (n + 1) r)

/-- Reads a batch. -/
def ofText (text : String) : Except BatchError (List Command) := do
  let commands ←
    match blocks text.toList with
    | [] => (readJson text).mapError (⟨none, ·⟩)
    | found => readBlocks 1 found
  return Command.distinct commands

end Batch

end Workboard
