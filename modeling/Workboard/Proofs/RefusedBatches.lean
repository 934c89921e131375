import Workboard.Proofs.KeptCommands
import Workboard.Proofs.Saving
import Workboard.Proofs.ValueText

/-! Batches that are refused.

A text is refused for the first of its parts that cannot be read (`Batch.exists_faulty`). Applying it ends after its file
was read: nothing else is asked of the disk (`Cli.Console.asks`), and the failure is the answer, as JSON that can be read
(`Cli.Failure.ofText_output`). The faults of JSON and of commands count as bad input; a part that is JSON of neither form
of a batch is a fault of the program's own, so it does not (`Cli.run_refused_batch`). -/

namespace Workboard

/-! ### The fault of a text -/

namespace Batch

variable {text : String} {e : BatchError}

/-- A JSON text that is neither an array nor an object with a member for the commands. -/
def Formless (text : String) : Prop :=
  ∃ j, Json.ofText (Text.trim text) = .ok j ∧ (∀ items, j ≠ .array items) ∧ j.member? "commands" = none

theorem readJson_eq_wrongShape_iff : readJson text = .error .wrongShape ↔ Formless text := by
  have hcommands (items : List Json) :
      (items.mapM Command.ofJson).mapError BatchFault.notCommands ≠ .error .wrongShape := by
    cases items.mapM Command.ofJson <;> exact nofun
  unfold readJson Formless
  cases hread : Json.ofText (Text.trim text) with
  | error f => exact ⟨nofun, nofun⟩
  | ok j =>
    simp only [Except.ok.injEq, exists_eq_left']
    cases j with
    | array items => exact ⟨fun h => absurd h (hcommands items), fun h => absurd rfl (h.1 items)⟩
    | object members =>
      simp only [Except.mapError, bind, Except.bind]
      cases hmember : (Json.object members).member? "commands" with
      | none => exact ⟨fun _ => ⟨nofun, rfl⟩, fun _ => rfl⟩
      | some x =>
        cases x with
        | array items => exact ⟨fun h => absurd h (hcommands items), nofun⟩
        | _ => exact ⟨nofun, nofun⟩
    | _ => exact ⟨fun _ => ⟨nofun, rfl⟩, fun _ => rfl⟩

/-- The first part of a text that cannot be read. -/
def faulty? (text : String) : Option (List Char) := (pieces text).find? fun piece => !(readJson (.ofList piece)).isOk

theorem exists_of_readBlocks_error {n : ℕ} {found : List (List Char)} (h : readBlocks n found = .error e) :
    ∃ piece, (found.find? fun piece => !(readJson (.ofList piece)).isOk) = some piece ∧
      readJson (.ofList piece) = .error e.fault := by
  induction found generalizing n with
  | nil => cases h
  | cons block r ih =>
    rcases bind_eq_error h with hblock | ⟨first, hfirst, h⟩
    · obtain ⟨f, hf, rfl⟩ := exists_of_mapError hblock
      exact ⟨block, List.find?_cons_of_pos (by rw [hf]; rfl), hf⟩
    · rcases bind_eq_error h with hrest | ⟨rest, -, h⟩
      · rw [List.find?_cons_of_neg (by rw [eq_ok_of_mapError hfirst]; exact Bool.false_ne_true)]
        exact ih hrest
      · cases h

/-- A text is refused for the fault of its first part that has one. -/
theorem exists_faulty (h : ofText text = .error e) :
    ∃ piece, faulty? text = some piece ∧ readJson (.ofList piece) = .error e.fault := by
  rw [ofText_eq] at h
  have hcommands : commandsOf text = .error e := eq_error_of_map h
  unfold commandsOf at hcommands
  unfold faulty? pieces
  generalize blocks text.toList = found at hcommands
  cases found with
  | nil =>
    obtain ⟨f, hf, rfl⟩ := exists_of_mapError hcommands
    refine ⟨text.toList, List.find?_cons_of_pos ?_, ?_⟩ <;> rw [String.ofList_toList, hf]
    rfl
  | cons block r => exact exists_of_readBlocks_error hcommands

end Batch

/-! ### Printed lines -/

/-- A value is read from its indented text on lines of its own, its members by key. -/
theorem Json.ofText_pretty_line {j : Json} (hnumbers : ∀ n ∈ j.numbers, n.ReadsBack)
    (hdepth : j.depth < Draft.nestingLimit) : ofText (j.pretty ++ "\n") = .ok j.sorted := by
  have hscan : Lexeme.Scans (j.pretty ++ "\n").toList j.lexemes := by
    have hline := Json.scans_pretty j 0 (ends_lineBreak 0 []) (Lexeme.Scans.nil.lineBreak 0)
    rw [List.append_nil, List.append_nil] at hline
    rw [String.toList_append, Json.pretty, String.toList_ofList]
    exact hline
  unfold ofText
  rw [JsonSource.ofText_of_scans hscan, shown_eq_ofJson hnumbers, JsonSource.read, Draft.value_ofJson j hdepth]
  rfl

namespace Cli

/-- The report of a failure is one JSON value. -/
theorem Failure.ofText_output (f : Failure) : Json.ofText (f.finish true).output = .ok f.envelope.toJson.sorted := by
  obtain ⟨kind, parts⟩ := f
  have hdepth : (envelope ⟨kind, parts⟩).toJson.depth = 1 := by cases kind <;> rfl
  refine Json.ofText_pretty_line ?_ (by rw [hdepth]; decide)
  cases kind <;> exact nofun

/-! ### What is asked of a disk -/

/-- One thing that a computation asks for. -/
inductive Ask where
  | read (path : String)
  | write (path text : String)
  | makeFolder (path : String)
  | isFolder (path : String)
  deriving DecidableEq, Repr

/-- All that a computation asks of a disk, in order. -/
def Console.asks {α : Type} : Console α → Disk → List Ask
  | done _, _ => []
  | read path next, d => .read path :: (next (d.read path)).asks d
  | write path text next, d =>
    .write path text ::
      match d.write path text with
      | .ok d => (next (.ok ())).asks d
      | .error e => (next (.error e)).asks d
  | makeFolder path next, d =>
    .makeFolder path ::
      match d.makeFolder path with
      | .ok d => (next (.ok ())).asks d
      | .error e => (next (.error e)).asks d
  | isFolder path next, d => .isFolder path :: (next (d.isFolder path)).asks d

variable {α β : Type}

theorem Console.asks_bind (x : Console α) (f : α → Console β) (d : Disk) :
    (x >>= f).asks d = x.asks d ++ (f (x.run d).1).asks (x.run d).2 := by
  show (x.bind f).asks d = _
  induction x generalizing d with
  | done a => rfl
  | read path next ih => exact congrArg (Ask.read path :: ·) (ih _ d)
  | write path text next ih =>
    simp only [Console.bind, Console.asks, Console.run, List.cons_append]
    cases d.write path text with
    | ok d' => exact congrArg (Ask.write path text :: ·) (ih _ d')
    | error e => exact congrArg (Ask.write path text :: ·) (ih _ d)
  | makeFolder path next ih =>
    simp only [Console.bind, Console.asks, Console.run, List.cons_append]
    cases d.makeFolder path with
    | ok d' => exact congrArg (Ask.makeFolder path :: ·) (ih _ d')
    | error e => exact congrArg (Ask.makeFolder path :: ·) (ih _ d)
  | isFolder path next ih => exact congrArg (Ask.isFolder path :: ·) (ih _ d)

namespace Task

variable {d d' : Disk} {x : Task α} {a : α}

def asks (x : Task α) (d : Disk) : List Ask := x.run.asks d

/-- A task that succeeds hands over the disk. -/
theorem asks_bind_ok (hx : x.on d = (.ok a, d')) (f : α → Task β) : (x >>= f).asks d = x.asks d ++ (f a).asks d' := by
  show (x.run >>= ExceptT.bindCont f).asks d = _
  unfold on at hx
  rw [Console.asks_bind, hx]
  rfl

/-- After a failure nothing is asked for. -/
theorem asks_bind_error {failure : Failure} (hx : x.on d = (.error failure, d')) (f : α → Task β) :
    (x >>= f).asks d = x.asks d := by
  show (x.run >>= ExceptT.bindCont f).asks d = _
  unfold on at hx
  rw [Console.asks_bind, hx]
  exact List.append_nil _

end Task

variable {d d' : Disk} {path text : String}

/-- Loading asks for one file. -/
theorem asks_load {ε : Type} (what : String) (g : String → Except ε α) (failure : ε → Failure) (d : Disk) :
    (Task.read what path >>= fun text => Task.expect (g text) failure).asks d = [.read path] := by
  have hread := Task.on_read what path d
  cases hd : d.read path with
  | error e =>
    rw [hd] at hread
    rw [Task.asks_bind_error hread]
    rfl
  | ok text =>
    rw [hd] at hread
    rw [Task.asks_bind_ok hread]
    cases g text <;> rfl

/-! ### Refusing -/

theorem batchFailureKind_cases (e : BatchError) :
    (e.fault = .wrongShape ∧ batchFailureKind e = .other) ∨ (e.fault ≠ .wrongShape ∧ batchFailureKind e = .badInput) := by
  obtain ⟨block, fault⟩ := e
  cases fault with
  | wrongShape => exact .inl ⟨rfl, rfl⟩
  | notJson f => exact .inr ⟨nofun, rfl⟩
  | notCommands f => exact .inr ⟨nofun, rfl⟩

variable {s : Surroundings} {orders : MapOrders} {arguments : List String} {r : ApplyRequest} {boardText catalogText : String}
  {b : Board} {catalog : Catalog} {e : BatchError}

/-- Applying a batch that is refused fails for it, when the files are read. -/
theorem runApply_refused (s : Surroundings) (orders : MapOrders)
    (hboard : d.read r.board = .ok boardText) (hb : Board.ofText boardText = .ok b)
    (hcatalog : d.read r.catalog = .ok catalogText) (hc : Catalog.ofText catalogText = .ok catalog)
    (hcommands : d.read r.commands = .ok text) (hrefused : Batch.ofText text = .error e) :
    (runApply s r orders).on d = (.error ⟨batchFailureKind e, s!"Invalid command file {r.commands}" :: e.parts⟩, d) ∧
      (runApply s r orders).asks d = [.read r.board, .read r.catalog, .read r.commands] := by
  have hloadBoard : (loadBoard r.board).on d = (.ok b, d) := by
    rw [loadBoard_on hboard, hb]
    rfl
  have hloadCatalog : (loadCatalog r.catalog).on d = (.ok catalog, d) := by
    rw [loadCatalog, on_load_of_read hcatalog, hc]
    rfl
  have hloadCommands : (loadCommands r.commands).on d =
      (.error ⟨batchFailureKind e, s!"Invalid command file {r.commands}" :: e.parts⟩, d) := by
    rw [loadCommands, on_load_of_read hcommands, hrefused]
    rfl
  unfold runApply
  constructor
  · rw [Task.on_bind, hloadBoard]
    dsimp only
    rw [Task.on_bind, hloadCatalog]
    dsimp only
    rw [Task.on_bind, hloadCommands]
  · rw [Task.asks_bind_ok hloadBoard, Task.asks_bind_ok hloadCatalog, Task.asks_bind_error hloadCommands]
    rw [loadBoard, loadCatalog, loadCommands, asks_load, asks_load, asks_load]
    rfl

/-- A request that fails is answered with the failure. -/
theorem run_of_failure {request : Request} {f : Failure} (hrequest : Request.ofArguments arguments = .ok request)
    (hfails : (runRequest s request orders).on d = (.error f, d')) :
    (run s arguments orders).run d = (f.finish request.json, d') ∧
      (run s arguments orders).asks d = (runRequest s request orders).asks d := by
  unfold run
  rw [hrequest]
  unfold Task.on at hfails
  constructor
  · rw [Console.run_bind, hfails]
    rfl
  · rw [Console.asks_bind, hfails]
    exact List.append_nil _

/-- A command file that can be read as a text, but not as a batch, fails the program before anything is written, and the
    envelope is the answer. Its code is that of bad input, unless the first part of the text that cannot be read
    is well-formed JSON of neither form. -/
theorem run_refused_batch (hrequest : Request.ofArguments arguments = .ok (.apply r)) (hjson : r.json = true)
    (hboard : d.read r.board = .ok boardText) (hb : (Board.ofText boardText).isOk = true)
    (hcatalog : d.read r.catalog = .ok catalogText) (hc : (Catalog.ofText catalogText).isOk = true)
    (hcommands : d.read r.commands = .ok text) (hrefused : Batch.ofText text = .error e) :
    ∃ piece finish, Batch.faulty? text = some piece ∧ (run s arguments orders).run d = (finish, d) ∧
      (run s arguments orders).asks d = [.read r.board, .read r.catalog, .read r.commands] ∧
      finish.exit = 1 ∧ finish.errors = "" ∧
      let message := ": ".intercalate (s!"Invalid command file {r.commands}" :: e.parts)
      (¬ Batch.Formless (.ofList piece) → Json.ofText finish.output =
        .ok (ErrorEnvelope.toJson ⟨"invalid_input", message, none,
          some "Check that the file is valid JSON of the expected shape."⟩).sorted) ∧
      (Batch.Formless (.ofList piece) → Json.ofText finish.output =
        .ok (ErrorEnvelope.toJson ⟨"internal", message, none, none⟩).sorted) := by
  obtain ⟨piece, hpiece, hfault⟩ := Batch.exists_faulty hrefused
  obtain ⟨b, hb⟩ := exists_ok_of_isOk hb
  obtain ⟨catalog, hc⟩ := exists_ok_of_isOk hc
  obtain ⟨hfails, hasks⟩ := runApply_refused s orders hboard hb hcatalog hc hcommands hrefused
  obtain ⟨hrun, hrunAsks⟩ := run_of_failure hrequest hfails
  have hfinish := Failure.ofText_output ⟨batchFailureKind e, s!"Invalid command file {r.commands}" :: e.parts⟩
  rw [Request.json, hjson] at hrun
  -- How the program fails is told by the first part of the text that cannot be read.
  have hform : Batch.Formless (.ofList piece) ↔ e.fault = .wrongShape := by
    rw [← Batch.readJson_eq_wrongShape_iff, hfault, Except.error.injEq]
  refine ⟨piece, _, hpiece, hrun, hrunAsks.trans hasks, rfl, rfl, fun hformless => ?_, fun hformless => ?_⟩
  · obtain ⟨hshape, -⟩ | ⟨-, hkind⟩ := batchFailureKind_cases e
    · exact absurd (hform.mpr hshape) hformless
    · rw [hkind] at hfinish ⊢
      exact hfinish
  · obtain ⟨-, hkind⟩ | ⟨hshape, -⟩ := batchFailureKind_cases e
    · rw [hkind] at hfinish ⊢
      exact hfinish
    · exact absurd (hform.mp hformless) hshape

/-- A disk with an empty board, an empty catalog and the given command file. -/
def commandDisk (text : String) : Disk :=
  ⟨.ofList [("board", "\x7b\"id\":\"b\",\"name\":\"b\"\x7d"), ("catalog", "[]"), ("commands", text)], ∅⟩

def applyArguments : List String :=
  ["apply", "--board", "board", "--catalog", "catalog", "--commands=commands", "--out", "out", "--json"]

/-- A batch whose second block is an object of no known form. -/
def otherForm : String := "<commands>[]</commands> and <commands>\x7b\"foo\":1\x7d</commands>"

/-- The same object in place of a command. -/
def otherCommand : String := "<commands>[]</commands> and <commands>[\x7b\"foo\":1\x7d]</commands>"

/-- Where one object is a batch the code is that of the program's own faults, and where it is a command that of bad input. -/
theorem run_refused_batch_otherForm :
    (∃ finish, (run ⟨0, .zero⟩ applyArguments).run (commandDisk otherForm) = (finish, commandDisk otherForm) ∧
      finish.exit = 1 ∧ ∃ message, Json.ofText finish.output =
        .ok (ErrorEnvelope.toJson ⟨"internal", message, none, none⟩).sorted) ∧
      ∃ finish, (run ⟨0, .zero⟩ applyArguments).run (commandDisk otherCommand) = (finish, commandDisk otherCommand) ∧
        finish.exit = 1 ∧ ∃ message, Json.ofText finish.output = .ok (ErrorEnvelope.toJson ⟨"invalid_input", message, none,
          some "Check that the file is valid JSON of the expected shape."⟩).sorted := by
  have hrequest : Request.ofArguments applyArguments =
      .ok (.apply ⟨"board", "catalog", "commands", some "out", true, true⟩) := by decide +kernel
  have hboard : (Board.ofText "\x7b\"id\":\"b\",\"name\":\"b\"\x7d").isOk = true := by decide +kernel
  have hcatalog : (Catalog.ofText "[]").isOk = true := by decide +kernel
  constructor
  · have hrefused : Batch.ofText otherForm = .error ⟨some 2, .wrongShape⟩ := eq_error_of_map (f := fun _ => ()) (by decide +kernel)
    obtain ⟨piece, finish, hpiece, hrun, -, hexit, -, -, henvelope⟩ := run_refused_batch (s := ⟨0, .zero⟩)
      (d := commandDisk otherForm) hrequest rfl (by decide +kernel) hboard (by decide +kernel) hcatalog
      (by decide +kernel) hrefused
    have hknown : Batch.faulty? otherForm = some "\x7b\"foo\":1\x7d".toList := by decide +kernel
    obtain rfl := Option.some.inj (hpiece.symm.trans hknown)
    refine ⟨finish, hrun, hexit, _, henvelope (Batch.readJson_eq_wrongShape_iff.mp ?_)⟩
    exact eq_error_of_map (f := fun _ => ()) (by decide +kernel)
  · have hrefused : Batch.ofText otherCommand = .error ⟨some 2, .notCommands .mismatched⟩ :=
      eq_error_of_map (f := fun _ => ()) (by decide +kernel)
    obtain ⟨piece, finish, hpiece, hrun, -, hexit, -, henvelope, -⟩ := run_refused_batch (s := ⟨0, .zero⟩)
      (d := commandDisk otherCommand) hrequest rfl (by decide +kernel) hboard (by decide +kernel) hcatalog
      (by decide +kernel) hrefused
    have hknown : Batch.faulty? otherCommand = some "[\x7b\"foo\":1\x7d]".toList := by decide +kernel
    obtain rfl := Option.some.inj (hpiece.symm.trans hknown)
    have hread : Batch.readJson (.ofList "[\x7b\"foo\":1\x7d]".toList) = .error (.notCommands .mismatched) :=
      eq_error_of_map (f := fun _ => ()) (by decide +kernel)
    refine ⟨finish, hrun, hexit, _, henvelope ?_⟩
    rw [← Batch.readJson_eq_wrongShape_iff, hread]
    exact nofun

end Cli

end Workboard
