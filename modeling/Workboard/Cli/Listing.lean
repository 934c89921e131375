import Workboard.Apply.Report
import Workboard.Board.Mutation
import Workboard.Search.Highlight
import Workboard.Search.Index

/-! The answers of the program as text for people. -/

namespace Workboard.Cli

open Search

/-- A text from a byte on, with brackets around ranges. A range that cannot be cut out is passed over. -/
def markFrom (text : List Char) (start : Nat) : List ByteRange → List Char
  | [] => ((splitBytes? start text).map (·.2)).getD []
  | x :: more =>
    match ByteRange.slice? ⟨start, x.start⟩ text, x.slice? text with
    | some before, some hit => before ++ '[' :: hit ++ ']' :: markFrom text x.stop more
    | _, _ => markFrom text start more

/-- A text with brackets around the terms of a query. -/
def marked (text query : String) : String := .ofList (markFrom text.toList 0 (highlight text query))

/-- The greatest number of characters of a value that are shown. -/
def previewLength : Nat := 80

/-- The first line of a text; a return before the line's end does not belong to it. -/
def firstLine (text : List Char) : List Char :=
  let line := text.takeWhile (· ≠ '\n')
  if line.length < text.length ∧ line.getLast? = some '\r' then line.dropLast else line

/-- The first line of a text, cut if it is long. -/
def preview (text : String) : String :=
  let line := firstLine text.toList
  if line.length ≤ previewLength then .ofList line else .ofList (line.take previewLength ++ ['…'])

/-- A score with three places. -/
def scoreText (x : Float32) : String :=
  match Reading.ofFloat32 x with
  | .finite negative b => fixedText negative b 3
  | .infinite negative => if negative then "-inf" else "inf"
  | .undefined => "NaN"

/-- Lines as one text without white space at its end. -/
def block (lines : List String) : String := Text.trimEnd ("\n".intercalate lines)

/-- The lines of a result. -/
def hitLines (query : String) (number : Nat) (h : Hit) : List String :=
  let d := h.document
  [s!"{number}. [{d.kind.label}] {marked d.name query} (score: {scoreText h.score})"]
    ++ (if d.layerPath.isEmpty then [] else ["   Layer: " ++ " > ".intercalate d.layerPath])
    ++ (d.pinName.map ("   Pin: " ++ ·)).toList
    ++ (d.matchedValue.map fun v => "   Value: " ++ marked (preview v) query).toList
    ++ ["   Id: " ++ d.id]

def searchText (query : String) (hits : List Hit) : String :=
  if hits.isEmpty then s!"No results for \"{query}\""
  else block (hits.zipIdx.flatMap fun (h, i) => hitLines query (i + 1) h)

def outcomeLine (o : Outcome) : String :=
  match o.status with
  | .applied entity => s!"  #{o.index} {o.kind} ok -> {entity}"
  | .failed reason => s!"  #{o.index} {o.kind} FAILED: {reason}"

/-- What came of a batch, the commands in the order of the batch. -/
def reportText (r : Report) (notices : List Notice) : String :=
  block (
    [s!"Applied {r.applied}/{r.outcomes.length} commands ({r.failed} failed)"]
      ++ (r.outcomes.mergeSort fun a b => a.index ≤ b.index).map outcomeLine
      ++ r.created.map (fun c => s!"  node {c.node} <- " ++ ", ".intercalate c.aliases)
      ++ if notices.isEmpty then [] else [s!"{notices.length} notice(s) raised"])

def layerLine (b : Board) (id : String) : String :=
  match b.layerPath id with
  | .ok names => s!"{id}: " ++ " > ".intercalate names
  | .error fault => s!"{id}: ! {(BoardError.climb id fault).message}"

/-- The layers with those around them, and the cycles among them. -/
def layersText (b : Board) : String :=
  if b.layers.isEmpty then "No layers"
  else block (b.layers.keys.map (layerLine b) ++ b.layerCycles.map fun c => "cycle: " ++ ", ".intercalate c)

end Workboard.Cli
