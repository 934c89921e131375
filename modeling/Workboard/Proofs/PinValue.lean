import Workboard.Proofs.InStep
import Workboard.Proofs.Interleaving
import Workboard.Proofs.Log

/-! A pin's value, set while other batches run.

The command goes out as a whole node that was built from a fetched board, and is refused if the node has
changed since. So what it changes is the value alone, whatever other batches did in between
(`Memory.Concurrent.sets_pins`). -/

namespace Workboard

namespace Board

variable {b b' : Board}

/-- A node that was found earlier is replaced by itself with another value at one of its pins. If that is
    accepted, the node was as found, and all its copies get the value. -/
theorem InStep.execute_withDefault (h : b.InStep) {n : Node} {pin : String} {value : List UInt8} {r : Receipt}
    (hok : (b.execute (.updateNode (some n) (n.withDefault pin value))).result = .ok r) :
    ∃ current, b.copy? none n.id = some current ∧ (n.place == current.place) = true ∧
      n = { current with place := n.place } ∧
      (b.execute (.updateNode (some n) (n.withDefault pin value))).board =
        (b.editNode n.id fun m => { m.withDefault pin value with place := n.place }).countChange := by
  obtain ⟨hperform, hboard⟩ := execute_of_ok hok
  obtain ⟨current, hcurrent, hnext⟩ := Effect.given_of_ok hperform
  have hstored : b.copy? none n.id = some current := (h.node? n.id).symm.trans (needNode_eq_ok.mp hcurrent)
  have hresult : b.perform (.updateNode (some n) (n.withDefault pin value)) = _ := hnext
  rw [hresult] at hperform hboard
  split at hperform
  · cases hperform
  rename_i hsame
  have hbeq : (n == current) = true := by simpa [bne] using hsame
  obtain ⟨hplace, hn⟩ := Node.eq_of_beq_but_place hbeq
  refine ⟨current, hstored, hplace, hn, ?_⟩
  rw [hboard, if_neg hsame]
  exact congrArg countChange (h.editNode_withDefault hstored hn pin value)

end Board

/-! ### Batches under way -/

/-- The result of a session that has ended. -/
def Session.result? {α : Type} : Session α → Option α
  | done a => some a
  | _ => none

theorem Session.eq_done_of_result? {α : Type} {x : Session α} {a : α} (h : x.result? = some a) : x = .done a := by
  cases x <;> cases h
  rfl

/-- An accepted mutation, with the board right before it and right after it. -/
structure Change extends Accepted where
  before : Board
  after : Board

/-- A batch under way: how it began, what is left of it, the board that it fetched last, and what was changed
    for it so far. -/
structure Running where
  setting : Occasion
  view : Board
  commands : List Command
  rest : Session (Report × List Notice)
  fetched : Option Board
  changes : List Change

namespace Running

def begin (t : Occasion) (view : Board) (commands : List Command) : Running :=
  ⟨t, view, commands, Batch.apply t view commands, none, []⟩

/-- What was fetched and accepted so far. -/
def log (r : Running) : Log := ⟨r.fetched, r.changes.map Change.toAccepted⟩

/-- Answers what the batch asks for next. -/
def advance (r : Running) (s : Memory) : Running × Memory :=
  match r.rest with
  | .done _ => (r, s)
  | .execute m next =>
    match s.execute m with
    | (.ok receipt, s') =>
      ({ r with rest := next (.ok receipt), changes := r.changes ++ [⟨⟨r.fetched, m, receipt⟩, s.board, s'.board⟩] }, s')
    | (.error e, s') => ({ r with rest := next (.error e) }, s')
  | .snapshot next => ({ r with rest := next (.ok s.board), fetched := some s.board }, s)
  | .fence _ next => ({ r with rest := next true }, s)
  | .wait _ next => ({ r with rest := next }, s)

/-- The calls are those of the batch's session. -/
theorem advance_rest (r : Running) (s : Memory) :
    ((r.advance s).1.rest, (r.advance s).2) = r.rest.advance Memory.facility s := by
  unfold advance
  split
  · rename_i hrest
    rw [hrest]
    rfl
  · rename_i m next hrest
    rw [hrest]
    show _ = (next (s.execute m).1, (s.execute m).2)
    split <;> rename_i hexecute <;> rw [hexecute]
  · rename_i hrest
    rw [hrest]
    rfl
  · rename_i hrest
    rw [hrest]
    rfl
  · rename_i hrest
    rw [hrest]
    rfl

/-- What holds of a batch under way: its applied commands and its changes will go together, it asks for
    proper mutations only, and each change is that of a board that was in step. -/
structure Kept (r : Running) : Prop where
  logs : r.rest.Logs (fun l x => Batch.Explained r.setting r.commands r.view l x.1) r.log
  proper : r.rest.Ensures Mutation.Proper fun _ => True
  changed : ∀ c ∈ r.changes, c.before.InStep ∧ c.before.execute c.mutation = ⟨c.after, .ok c.receipt⟩

theorem kept_begin (t : Occasion) (view : Board) (commands : List Command) : (begin t view commands).Kept where
  logs := Batch.logs_apply t view commands
  proper := (Batch.ensures_apply t view commands).imp (fun _ hm => hm) fun _ _ => trivial
  changed c hc := by cases hc

theorem log_change (r : Running) (m : Mutation) (receipt : Receipt) (before after : Board) (rest : Session (Report × List Notice)) :
    ({ r with rest, changes := r.changes ++ [⟨⟨r.fetched, m, receipt⟩, before, after⟩] } : Running).log =
      r.log.accept m receipt := by
  unfold log Log.accept
  rw [List.map_append]
  rfl

end Running

namespace Memory

theorem execute_eq (s : Memory) (m : Mutation) {receipt : Receipt} {s' : Memory} (h : s.execute m = (.ok receipt, s')) :
    s.board.execute m = ⟨s'.board, .ok receipt⟩ := by
  unfold execute at h
  split at h
  · rename_i heffect
    cases h
    exact heffect
  · cases h

/-- One call keeps the memory's board in step, and what holds of the batch. -/
theorem kept_advance {r : Running} {s : Memory} (hr : r.Kept) (hs : s.board.InStep) :
    (r.advance s).1.Kept ∧ (r.advance s).2.board.InStep := by
  obtain ⟨hlogs, hproper, hchanged⟩ := hr
  unfold Running.advance
  split
  · exact ⟨⟨hlogs, hproper, hchanged⟩, hs⟩
  · rename_i m next hrest
    rw [hrest] at hlogs hproper
    have hboard : (s.execute m).2.board.InStep := by
      rw [board_execute]
      exact hs.execute hproper.1
    split
    · rename_i receipt s' hexecute
      rw [hexecute] at hboard
      have heffect := s.execute_eq m hexecute
      refine ⟨⟨?_, hproper.2 _, fun c hc => ?_⟩, hboard⟩
      · rw [Running.log_change]
        exact hlogs.2 receipt (Board.fits_execute (congrArg Effect.result heffect))
      · rcases List.mem_append.mp hc with hc | hc
        · exact hchanged c hc
        · obtain rfl := List.mem_singleton.mp hc
          exact ⟨hs, heffect⟩
    · rename_i e s' hexecute
      rw [hexecute] at hboard
      exact ⟨⟨hlogs.1 e, hproper.2 _, hchanged⟩, hboard⟩
  · rename_i next hrest
    rw [hrest] at hlogs hproper
    exact ⟨⟨hlogs.2 s.board, hproper _, hchanged⟩, hs⟩
  · rename_i point next hrest
    rw [hrest] at hlogs hproper
    exact ⟨⟨hlogs true, hproper true, hchanged⟩, hs⟩
  · rename_i t next hrest
    rw [hrest] at hlogs hproper
    exact ⟨⟨hlogs, hproper, hchanged⟩, hs⟩

/-- The batches under way with what was changed for each of them, and the memory: as in `Reachable`, batches
    begin at any time and on any view, and calls are answered in any order. -/
inductive Concurrent (b : Board) : List Running → Memory → Prop where
  | start : Concurrent b [] (.ofBoard b)
  | begin {batches : List Running} {s : Memory} (t : Occasion) (view : Board) (commands : List Command)
      (h : Concurrent b batches s) : Concurrent b (.begin t view commands :: batches) s
  | call {l r : List Running} {x : Running} {s : Memory} (h : Concurrent b (l ++ x :: r) s) :
      Concurrent b (l ++ (x.advance s).1 :: r) (x.advance s).2

variable {b : Board} {batches : List Running} {s : Memory}

theorem Concurrent.reachable (h : Concurrent b batches s) : Reachable b (batches.map Running.rest) s := by
  induction h with
  | start => exact .start
  | begin t view commands _ ih => exact ih.begin t view commands
  | @call l r x s _ ih =>
    rw [List.map_append, List.map_cons] at ih ⊢
    obtain ⟨hrest, hmemory⟩ := Prod.mk.inj (x.advance_rest s)
    rw [hrest, hmemory]
    exact ih.call

/-- A board that is in step stays so, and every batch is kept. -/
theorem Concurrent.kept (h : Concurrent b batches s) (hb : b.InStep) : (∀ r ∈ batches, r.Kept) ∧ s.board.InStep := by
  induction h with
  | start => exact ⟨fun r hr => absurd hr List.not_mem_nil, hb⟩
  | begin t view commands _ ih =>
    refine ⟨fun r hr => ?_, ih.2⟩
    rcases List.mem_cons.mp hr with rfl | hr
    · exact Running.kept_begin t view commands
    · exact ih.1 r hr
  | @call l r x s _ ih =>
    have hx := kept_advance (ih.1 x (List.mem_append_right _ List.mem_cons_self)) ih.2
    refine ⟨fun y hy => ?_, hx.2⟩
    rcases List.mem_append.mp hy with hy | hy
    · exact ih.1 y (List.mem_append_left _ hy)
    · rcases List.mem_cons.mp hy with rfl | hy
      · exact hx.1
      · exact ih.1 y (List.mem_append_right _ (List.mem_cons_of_mem x hy))

end Memory

/-! ### The value alone -/

/-- The change set the value at the pin that two references mean on the board that was fetched last, and did
    nothing else but count itself. The node was on the board as it had been fetched; as coordinates are
    compared as numbers, a zero of the other sign passes, and comes with the node. -/
structure Change.SetsPin (c : Change) (refs : References) (nodeRef pinRef : String) (value : Json) (n : Node) (pin : String) :
    Prop where
  meant : ∃ view found, c.fetched = some view ∧ refs.node view nodeRef = .ok n ∧
    refs.pin nodeRef n pinRef = .ok found ∧ found.pin = pin
  stored : ∃ current, c.before.copy? none n.id = some current ∧ current.pins.contains pin = true ∧
    (n.place == current.place) = true ∧ n = { current with place := n.place }
  after : c.after =
    (c.before.editNode n.id fun m => { m.withDefault pin (storedValue value) with place := n.place }).countChange

/-- The applied commands of a report and the changes that were made for the batch go together in order; the
    change of a command that sets a pin's value sets that value and does nothing else. -/
def Running.SetsPins (r : Running) (report : Report) : Prop :=
  List.Forall₂ (fun o c => ∀ command nodeRef pinRef value, r.commands[o.index]? = some command →
      command.action = .updateNodePin nodeRef pinRef value →
      ∃ n pin, Change.SetsPin c (Batch.referencesOf r.commands r.view (report.outcomes.filter (·.isApplied)) r.log)
        nodeRef pinRef value n pin)
    (report.outcomes.filter (·.isApplied)) r.changes

theorem References.contains_of_pin {s : References} {nodeRef pinRef : String} {n : Node} {found : PinMatch}
    (h : s.pin nodeRef n pinRef = .ok found) : n.pins.contains found.pin = true := by
  unfold pin at h
  dsimp only at h
  split at h
  · rename_i m hm
    cases h
    simpa using (Option.filter_eq_some_iff.mp hm).2
  · cases h

theorem Batch.Explains.setsPin {t : Occasion} {commands : List Command} {refs : References} {o : Outcome} {c : Change}
    (h : Explains t commands refs o c.toAccepted) (hbefore : c.before.InStep)
    (hafter : c.before.execute c.mutation = ⟨c.after, .ok c.receipt⟩) {command : Command} {nodeRef pinRef : String}
    {value : Json} (hcommand : commands[o.index]? = some command) (haction : command.action = .updateNodePin nodeRef pinRef value) :
    ∃ n pin, c.SetsPin refs nodeRef pinRef value n pin := by
  cases h with
  | made hc hcreates _ =>
    rw [hcommand] at hc
    cases hc
    unfold Command.createsNode at hcreates
    rw [haction] at hcreates
    cases hcreates
  | carriedOut hc _ _ hfresh hstands =>
    rw [hcommand] at hc
    cases hc
    rw [haction] at hfresh hstands
    obtain ⟨n, hn, hstands⟩ := bind_eq_ok hstands
    obtain ⟨found, hfound, hstands⟩ := bind_eq_ok hstands
    injection hstands with hmutation
    rw [← hmutation] at hafter
    obtain ⟨current, hstored, hplace, hsame, hboard⟩ := hbefore.execute_withDefault (congrArg Effect.result hafter)
    rw [hafter] at hboard
    refine ⟨n, found.pin, ⟨_, found, hfresh rfl, hn, hfound, rfl⟩, ⟨current, hstored, ?_, hplace, hsame⟩, hboard⟩
    have hpins : n.pins = current.pins := by rw [hsame]
    rw [← hpins]
    exact References.contains_of_pin hfound

namespace Memory

/-- Of any number of batches at the same time, each of a batch's commands that are reported as applied and set a
    pin's value has left everything else as it was right before, whatever other batches had done by then. -/
theorem Concurrent.sets_pins {b : Board} {batches : List Running} {s : Memory} (h : Concurrent b batches s) (hb : b.InStep)
    {r : Running} (hr : r ∈ batches) {report : Report} {notices : List Notice} (hended : r.rest.result? = some (report, notices)) :
    r.SetsPins report := by
  obtain ⟨hlogs, -, hchanged⟩ := (h.kept hb).1 r hr
  rw [Session.eq_done_of_result? hended] at hlogs
  have hpairs := List.forall₂_map_right_iff.mp hlogs
  refine List.forall₂_iff_get.mpr ⟨hpairs.length_eq, fun i hi hi' => ?_⟩
  obtain ⟨hstep, hexecute⟩ := hchanged (r.changes.get ⟨i, hi'⟩) (List.get_mem _ _)
  intro command nodeRef pinRef value hcommand haction
  exact (hpairs.get hi hi').setsPin hstep hexecute hcommand haction

/-- A board with two nodes, one of them with a pin. -/
def paired : Board :=
  let pins : KeyMap Pin := .ofList [("level", ⟨"level", "level", "Level", "", .input, .string, .single, none, ∅, ∅⟩)]
  let one := ((Board.blank "b" "board").execute (.addNode ⟨"", "log", "Log", "", "", none, pins, .origin, none⟩ none [])).board
  (one.execute (.addNode ⟨"", "end", "End", "", "", none, ∅, .origin, none⟩ none [])).board

theorem inStep_paired : paired.InStep :=
  ((Board.inStep_blank "b" "board").execute (m := .addNode _ none _) trivial).execute (m := .addNode _ none _) trivial

/-- Between the fetch and the change of a batch that sets a pin's value another batch removes a node, and it stays
    removed. -/
theorem sets_pin_beside_removal :
    let t : Setting := ⟨[], .standard, .zero, 0⟩
    let setting := Running.begin t paired [⟨.updateNodePin "node-1" "level" (.string "high"), none⟩]
    let removing := Running.begin t paired [⟨.removeNode "node-3", none⟩]
    let fetched := setting.advance (.ofBoard paired)
    let removed := removing.advance fetched.2
    let set := fetched.1.advance removed.2
    let report : Report := ⟨[⟨0, "UpdateNodePin", .applied "node-1"⟩], [], true⟩
    paired.InStep ∧ Concurrent paired [removed.1, set.1] set.2 ∧
    set.2.journal.map Mutation.kind = ["RemoveNode", "UpdateNode"] ∧ set.2.board.nodes.keys = ["node-1"] ∧
    set.1.rest.result? = some (report, []) ∧ set.1.SetsPins report := by
  intro t setting removing fetched removed set report
  have hbegun : Concurrent paired [removing, setting] (.ofBoard paired) := (Concurrent.start.begin t _ _).begin t _ _
  have hfetched : Concurrent paired [removing, fetched.1] fetched.2 := Concurrent.call (l := [removing]) hbegun
  have hremoved : Concurrent paired [removed.1, fetched.1] removed.2 := Concurrent.call (l := []) hfetched
  have hset : Concurrent paired [removed.1, set.1] set.2 := Concurrent.call (l := [removed.1]) hremoved
  have hmem : set.1 ∈ [removed.1, set.1] := by simp
  have hended : set.1.rest.result? = some (report, []) := by decide +kernel
  exact ⟨inStep_paired, hset, by decide +kernel, by decide +kernel, hended, hset.sets_pins inStep_paired hmem hended⟩

end Memory

end Workboard
