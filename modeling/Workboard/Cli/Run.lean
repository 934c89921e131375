import Workboard.Apply.Batch
import Workboard.Apply.CatalogText
import Workboard.Apply.Memory
import Workboard.Cli.Arguments
import Workboard.Cli.Console
import Workboard.Cli.Listing
import Workboard.Command.Batch
import Workboard.Command.Envelope
import Workboard.Command.Schema

/-! The commands of the program. Each reads the files that it is given, and answers with a text; a failure
is reported in JSON if the answer would be JSON. -/

namespace Workboard.Cli

/-! ### Failures -/

inductive FailureKind where
  | emptyQuery
  | badInput
  | fileTrouble
  | other
  deriving DecidableEq, Repr

namespace FailureKind

def code : FailureKind → String
  | emptyQuery => "empty_query"
  | badInput => "invalid_input"
  | fileTrouble => "io_error"
  | other => "internal"

def hint? : FailureKind → Option String
  | emptyQuery => some "Pass a query with at least one letter or digit."
  | badInput => some "Check that the file is valid JSON of the expected shape."
  | _ => none

end FailureKind

/-- Why a command failed. -/
structure Failure where
  kind : FailureKind
  /-- What is said of it, the general before the particular. -/
  parts : List String
  deriving DecidableEq, Repr

namespace Failure

def message (f : Failure) : String := ": ".intercalate f.parts

def envelope (f : Failure) : ErrorEnvelope := ⟨f.kind.code, f.message, none, f.kind.hint?⟩

/-- The report for people: the general part, and below it what caused it. -/
def report (f : Failure) : String :=
  let causes :=
    match f.parts.drop 1 with
    | [] => []
    | [cause] => ["", "Caused by:", "    " ++ cause]
    | causes => "" :: "Caused by:" :: causes.zipIdx.map fun (c, i) => s!"    {i}: {c}"
  "\n".intercalate (("Error: " ++ f.parts.headD "") :: causes) ++ "\n"

end Failure

/-- A computation that may fail. -/
abbrev Task (α : Type) := ExceptT Failure Console α

namespace Task

def fail (kind : FailureKind) (parts : List String) : Task α := throw ⟨kind, parts⟩

/-- Goes on with a result, or fails as said. -/
def expect (r : Except ε α) (failure : ε → Failure) : Task α :=
  match r with
  | .ok x => pure x
  | .error e => throw (failure e)

def file (context : String) (r : Except FileError α) : Except Failure α :=
  r.mapError fun e => ⟨.fileTrouble, [context, e.text]⟩

/-- The text of a file. -/
def read (what path : String) : Task String :=
  .mk (.read path fun r => .done (file s!"Failed to read {what} file {path}" r))

end Task

/-! ### Files -/

def loadBoard (path : String) : Task Board := do
  let text ← Task.read "board" path
  Task.expect (Board.ofText text) fun f => ⟨.badInput, [s!"Board file {path} is not a valid board", f.name]⟩

def loadCatalog (path : String) : Task Catalog := do
  let text ← Task.read "catalog" path
  Task.expect (Catalog.ofText text) fun f =>
    ⟨.badInput, [s!"Catalog file {path} is not a list of node templates", f.name]⟩

/-- A batch of another form than expected is no fault of its JSON. -/
def batchFailureKind (e : BatchError) : FailureKind :=
  match e.fault with
  | .wrongShape => .other
  | _ => .badInput

def loadCommands (path : String) : Task (List Command) := do
  let text ← Task.read "command" path
  Task.expect (Batch.ofText text) fun e => ⟨batchFailureKind e, s!"Invalid command file {path}" :: e.parts⟩

/-- The profile of a file has the name of the file. -/
def loadProfile (path : String) : Task Search.Profile := do
  let text ← Task.read "profile" path
  let name := (Path.stem? path).getD "custom"
  Task.expect (Search.Profile.ofText name text (some "board")) fun e =>
    ⟨match e with | .notJson _ => .badInput | _ => .other, e.parts name⟩

/-- Writes a board, and makes the folders for it where they are missing. -/
def saveBoard (path : String) (b : Board) : Task Unit := do
  match Path.parent? path with
  | some folder =>
    .mk do return Task.file s!"Failed to create {folder}" (← Console.makeFolders (Path.upward folder.length folder))
  | none => pure ()
  .mk (.write path b.document fun r => .done (Task.file s!"Failed to write board to {path}" r))

/-! ### Commands -/

/-- What the program takes from its surroundings. -/
structure Surroundings where
  /-- The time in milliseconds. -/
  now : UInt64
  pauses : Pauses

/-- The orders in which the hash maps of one run give their entries. -/
structure MapOrders where
  /-- The pins of the template of the `n`-th node that is made. -/
  pins : Nat → List String := fun _ => []
  /-- What is on the board. -/
  board : Board.Orders := {}
  /-- The documents that have a score. -/
  hits : List Nat := []

/-- A text to print, and perhaps a failure that comes behind it. -/
structure Answer where
  text : String
  failure : Option Failure

def runSearch (r : SearchRequest) (orders : MapOrders := {}) : Task Answer := do
  let board ← loadBoard r.board
  let profile ←
    match r.profile with
    | some path => loadProfile path
    | none => pure .board
  let profile :=
    match r.limit with
    | some limit => profile.withLimit limit
    | none => profile
  let index := Search.Index.ofBoard board profile orders.board
  let hits ← Task.expect (index.search r.query orders.hits) fun e => ⟨.emptyQuery, [e.message]⟩
  if r.json then
    let answer := Json.ofMembers [
      ("query", .string r.query),
      ("profile", .string profile.name),
      ("results", .array (hits.map Search.Hit.toJson))]
    return ⟨answer.pretty, none⟩
  else return ⟨searchText r.query hits, none⟩

def runApply (s : Surroundings) (r : ApplyRequest) (orders : MapOrders := {}) : Task Answer := do
  let board ← loadBoard r.board
  let catalog ← loadCatalog r.catalog
  let commands ← loadCommands r.commands
  let occasion : Occasion := ⟨⟨catalog, .standard, if r.settle then s.pauses else .zero, s.now⟩, orders.pins⟩
  -- The board is saved also if some commands failed.
  let ((report, notices), memory) := (Batch.apply occasion board commands).run Memory.facility (.ofBoard board)
  match r.out with
  | some path => saveBoard path memory.board
  | none => pure ()
  if r.json then
    let answer := Json.ofMembers [
      ("report", report.toJson),
      ("notices", .array (notices.map Notice.toJson)),
      ("board_version", memory.board.version.toJson)]
    return ⟨answer.pretty, none⟩
  else return ⟨reportText report notices, none⟩

def runLayers (path : String) : Task Answer := do
  let board ← loadBoard path
  let cycles := board.layerCycles.length
  return ⟨layersText board,
    if cycles = 0 then none else some ⟨.other, [s!"{cycles} layer cycle(s) in board {board.id}"]⟩⟩

def runRequest (s : Surroundings) (request : Request) (orders : MapOrders := {}) : Task Answer :=
  match request with
  | .search r => runSearch r orders
  | .apply r => runApply s r orders
  | .layers path => runLayers path
  | .schema => return ⟨Command.batchSchema.pretty, none⟩

/-! ### The program -/

/-- How the program ends: its exit code and what it prints. -/
structure Finish where
  exit : UInt32
  output : String
  errors : String
  deriving DecidableEq, Repr

def usage : String := "Usage: workboard [--verbose] [--quiet] <search|apply|layers|schema> [options]\n"

def versionText : String := "workboard 0.1.0\n"

def Stop.finish : Stop → Finish
  | help => ⟨0, usage, ""⟩
  | version => ⟨0, versionText, ""⟩
  | misuse e => ⟨2, "", s!"error: {e.message}\n\n{usage}"⟩

/-- A failure is reported where the answer would have been if that is JSON. -/
def Failure.finish (json : Bool) (f : Failure) : Finish :=
  if json then ⟨1, f.envelope.toJson.pretty ++ "\n", ""⟩ else ⟨1, "", f.report⟩

def Answer.finish (a : Answer) : Finish :=
  match a.failure with
  | none => ⟨0, a.text ++ "\n", ""⟩
  | some f => ⟨1, a.text ++ "\n", f.report⟩

/-- Runs a command line. -/
def run (s : Surroundings) (arguments : List String) (orders : MapOrders := {}) : Console Finish :=
  match Request.ofArguments arguments with
  | .error stop => .done stop.finish
  | .ok request => do
    match ← (runRequest s request orders).run with
    | .ok answer => return answer.finish
    | .error f => return f.finish request.json

end Workboard.Cli
