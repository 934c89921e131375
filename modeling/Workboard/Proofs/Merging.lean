import Workboard.Proofs.PinOrders
import Workboard.Proofs.PlainNames

/-! Merging the commands of a batch in another way.

A batch makes its nodes first, so it matters in which order these commands are, and in which order the others are, but
not how the two are merged: as long as no reference is a position, the memory and what the commands come to are the same
(`Batch.apply_remerged`). The two runs are followed side by side (`Batch.Abreast`). -/

namespace Workboard

/-- What came of a command, but for its position and for the reason of a failure. -/
def Outcome.result (o : Outcome) : String × Option String := (o.kind, o.entity?)

theorem Outcome.isApplied_eq (o : Outcome) : o.isApplied = o.result.2.isSome := by
  unfold isApplied result entity?
  cases o.status <;> rfl

/-- The same came of a command, but for its position and those among the references that would do. -/
structure Outcome.SameButPositions (o o' : Outcome) : Prop where
  kind : o.kind = o'.kind
  status : o.status = o'.status ∨
    ∃ e e' : ApplyError, e.SameButPositions e' ∧ o.status = .failed e.message ∧ o'.status = .failed e'.message

theorem Outcome.SameButPositions.result {o o' : Outcome} (h : o.SameButPositions o') : o.result = o'.result := by
  unfold Outcome.result entity?
  rcases h.status with hstatus | ⟨e, e', -, hstatus, hstatus'⟩
  · rw [h.kind, hstatus]
  · rw [h.kind, hstatus, hstatus']

theorem Progress.lastApplied_congr {s s' : Progress} (h : s.outcomes.map (·.result) = s'.outcomes.map (·.result)) :
    s.lastApplied = s'.lastApplied := by
  have hlast (s : Progress) : s.lastApplied = (s.outcomes.map (·.result)).getLast?.any (·.2.isSome) := by
    rw [lastApplied, List.getLast?_map, Option.any_map]
    exact congrArg (Option.any · _) (funext Outcome.isApplied_eq)
  rw [hlast, hlast, h]

namespace Batch

/-- Two runs at the same point, of batches whose commands may stand at other positions. -/
structure Abreast (x x' : Progress × Memory) : Prop where
  memory : x.2 = x'.2
  view : x.1.view = x'.1.view
  refs : References.Agree x.1.refs x'.1.refs
  outcomes : List.Forall₂ Outcome.SameButPositions x.1.outcomes x'.1.outcomes
  created : x.1.created.map (·.node) = x'.1.created.map (·.node)
  holders : x.1.refs.HoldersUnnumbered
  known : x.1.view.Unnumbered
  board : x.2.board.Unnumbered

theorem Abreast.results {x x' : Progress × Memory} (h : Abreast x x') :
    x.1.outcomes.map (·.result) = x'.1.outcomes.map (·.result) := by
  rw [← List.forall₂_eq_eq_eq, List.forall₂_map_left_iff, List.forall₂_map_right_iff]
  exact h.outcomes.imp fun _ _ ho => ho.result

/-- The same command, perhaps at another position. -/
def SameCommand (i i' : Item) : Prop := i.command = i'.command

variable {t : Occasion} {s s' : Progress} {m m' : Memory} {i i' : Item} {l l' : List Item}

/-- A batch stands where it stands itself. -/
theorem abreast_begin {b : Board} (hb : ∀ id ∈ b.nodeIds, Unnumbered id) :
    Abreast (.begin b, .ofBoard b) (.begin b, .ofBoard b) := by
  have hlabels : b.Unnumbered := fun shelf key n hn => hb n.id (Board.mem_nodeIds.mpr ⟨shelf, key, n, hn, rfl⟩)
  exact ⟨rfl, rfl, .refl _, .nil, rfl, References.holdersUnnumbered_seed b, hlabels, hlabels⟩

/-! ### Items -/

theorem SameCommand.kind (hi : SameCommand i i') : i.command.kind = i'.command.kind := congrArg _ hi

/-- Both runs fail. Their boards may have been touched. -/
theorem Abreast.failed (h : Abreast (s, m) (s', m')) (hi : SameCommand i i') {e e' : ApplyError} (he : e.SameButPositions e')
    {last : Memory} (hlast : last.board.Unnumbered) : Abreast (s.failed i e, last) (s'.failed i' e', last) where
  memory := rfl
  view := h.view
  refs := h.refs
  outcomes := List.rel_append h.outcomes (.cons ⟨hi.kind, Or.inr ⟨e, e', he, rfl, rfl⟩⟩ .nil)
  created := h.created
  holders := h.holders
  known := h.known
  board := hlast

theorem Abreast.outcomes_applied (h : Abreast (s, m) (s', m')) (hi : SameCommand i i') (entity : String) :
    List.Forall₂ Outcome.SameButPositions (s.applied i entity).outcomes (s'.applied i' entity).outcomes :=
  List.rel_append h.outcomes (.cons ⟨hi.kind, Or.inl rfl⟩ .nil)

theorem Abreast.applied (h : Abreast (s, m) (s', m')) (hi : SameCommand i i') (entity : String) {last : Memory}
    (hlast : last.board.Unnumbered) : Abreast (s.applied i entity, last) (s'.applied i' entity, last) where
  memory := rfl
  view := h.view
  refs := h.refs
  outcomes := h.outcomes_applied hi entity
  created := h.created
  holders := h.holders
  known := h.known
  board := hlast

theorem Abreast.addNode (h : Abreast (s, m) (s', m')) (hi : SameCommand i i') (ref : Option String) {n : Node}
    (hn : Unnumbered n.id) {last : Memory} (hlast : last.board.Unnumbered) :
    Abreast (s.addNode i ref n, last) (s'.addNode i' ref n, last) where
  memory := rfl
  view := congrArg (fun view : Board => { view with nodes := view.nodes.insert n.id n }) h.view
  refs := h.refs.register n ref i.index i'.index
  outcomes := h.outcomes_applied hi n.id
  created := by
    simp only [Progress.addNode, List.map_append]
    exact congrArg (· ++ [n.id]) h.created
  holders := h.holders.register hn ref i.index
  known := by
    intro shelf key o ho
    cases shelf with
    | none =>
      have ho' : (s.view.nodes.insert n.id n).get? key = some o := ho
      rw [KeyMap.get?_insert] at ho'
      split at ho'
      · cases ho'
        exact hn
      · exact h.known none key o ho'
    | some layer => exact h.known (some layer) key o ho
  board := hlast

theorem Abreast.of_view (h : Abreast (s, m) (s', m')) :
    Abreast ({ s with view := m.board }, m) ({ s' with view := m'.board }, m') where
  memory := h.memory
  view := congrArg Memory.board h.memory
  refs := h.refs
  outcomes := h.outcomes
  created := h.created
  holders := h.holders
  known := h.board
  board := h.board

theorem abreast_create (h : Abreast (s, m) (s', m')) (hi : SameCommand i i') (cell : Spot) (order : List String) :
    Abreast ((create t s cell order i).run Memory.facility m) ((create t s' cell order i').run Memory.facility m') := by
  obtain rfl : m = m' := h.memory
  unfold create
  rw [show s.view = s'.view from h.view, show i.command = i'.command from hi]
  cases i'.command.action.creation t.catalog s'.view with
  | error e => exact h.failed hi (.refl e) h.board
  | ok c =>
    rcases Board.execute_addNode m.board { c.template with place := (c.spot.getD cell).place 0 } c.layer order with
      ⟨e, -, he⟩ | ⟨-, hok⟩
    · simp only [Session.run, Memory.facility, Memory.execute, he]
      exact h.failed hi (.refl _) h.board
    · simp only [Session.run, Memory.facility, Memory.execute, hok, Receipt.node?]
      have hid : Unnumbered (m.board.instantiate { c.template with place := (c.spot.getD cell).place 0 } c.layer order).id :=
        unnumbered_freshId m.board.takenIds
      exact h.addNode hi c.ref hid (h.board.storeNode hid)

theorem abreast_perform (h : Abreast (s, m) (s', m')) (hi : SameCommand i i') (hrefs : i.command.action.Unnumbered) :
    Abreast ((perform t s i).run Memory.facility m) ((perform t s' i').run Memory.facility m') := by
  obtain rfl : m = m' := h.memory
  have hmutation := Action.mutation_agree h.refs h.holders h.known hrefs t.now
  rw [show i.command = i'.command from hi, show s.view = s'.view from h.view] at hmutation
  unfold perform
  rw [show s.view = s'.view from h.view, show i.command = i'.command from hi]
  cases hm : i'.command.action.mutation s.refs s'.view t.now with
  | error e =>
    rw [hm] at hmutation
    generalize i'.command.action.mutation s'.refs s'.view t.now = answer at hmutation ⊢
    obtain _ | he := hmutation
    exact h.failed hi he h.board
  | ok mutation =>
    have hboard := h.board.execute (fun _ _ hid => hid) (Action.proper_mutation hm).1 fun _ => unnumbered_freshId m.board.takenIds
    rw [hm] at hmutation
    generalize i'.command.action.mutation s'.refs s'.view t.now = answer at hmutation ⊢
    cases hmutation
    simp only [Session.run, Memory.facility, Memory.execute]
    rcases he : m.board.execute mutation with ⟨last, e | r⟩ <;> rw [he] at hboard
    · exact h.failed hi (.refl _) hboard
    · exact h.applied hi r.id hboard

theorem abreast_carryOut (h : Abreast (s, m) (s', m')) (hi : SameCommand i i') (hrefs : i.command.action.Unnumbered)
    (outdated : Bool) :
    Abreast ((carryOut t outdated s i).run Memory.facility m) ((carryOut t outdated s' i').run Memory.facility m') := by
  unfold carryOut
  rw [show i'.command = i.command from hi.symm]
  split
  · rw [Session.run_bind, Session.run_bind, run_refresh, run_refresh]
    exact abreast_perform h.of_view hi hrefs
  · exact abreast_perform h hi hrefs

/-! ### Rounds -/

theorem abreast_createAll (h : Abreast (s, m) (s', m')) (hl : List.Forall₂ SameCommand l l') (start : Spot) (n : Nat) :
    Abreast ((createAll t start n s l).run Memory.facility m) ((createAll t start n s' l').run Memory.facility m') := by
  induction hl generalizing n s s' m m' with
  | nil => exact h
  | cons hi _ ih =>
    rw [run_createAll_cons, run_createAll_cons]
    exact ih (abreast_create h hi _ _) (n + 1)

theorem abreast_carryOutAll (h : Abreast (s, m) (s', m')) (hl : List.Forall₂ SameCommand l l')
    (hrefs : ∀ i ∈ l, i.command.action.Unnumbered) (outdated : Bool) :
    Abreast ((carryOutAll t outdated s l).run Memory.facility m)
      ((carryOutAll t outdated s' l').run Memory.facility m') := by
  induction hl generalizing outdated s s' m m' with
  | nil => exact h
  | @cons i i' r r' hi _ ih =>
    have hone := abreast_carryOut (t := t) h hi (hrefs i List.mem_cons_self) outdated
    rw [run_carryOutAll_cons Memory.settled, run_carryOutAll_cons Memory.settled, Progress.lastApplied_congr hone.results]
    exact ih hone (fun j hj => hrefs j (List.mem_cons_of_mem i hj)) _

/-! ### Batches -/

/-- The commands of either kind come in the same order. -/
def Remerged (commands commands' : List Command) : Prop :=
  ∀ creates, commands.filter (·.createsNode == creates) = commands'.filter (·.createsNode == creates)

variable {commands commands' : List Command}

theorem map_command_items (commands : List Command) : (items commands).map (·.command) = commands := by
  unfold items
  rw [List.map_map]
  exact List.zipIdx_map_fst 0 commands

theorem Remerged.map_command (h : Remerged commands commands') (creates : Bool) :
    ((items commands).filter (·.command.createsNode == creates)).map (·.command) =
      ((items commands').filter (·.command.createsNode == creates)).map (·.command) := by
  have hcommands (l : List Command) : ((items l).filter (·.command.createsNode == creates)).map (·.command) =
      l.filter (·.createsNode == creates) := by
    conv_rhs => rw [← map_command_items l, List.filter_map]
    rfl
  rw [hcommands, hcommands, h creates]

theorem Remerged.sameCommand (h : Remerged commands commands') (creates : Bool) :
    List.Forall₂ SameCommand ((items commands).filter (·.command.createsNode == creates))
      ((items commands').filter (·.command.createsNode == creates)) := by
  have hsame := h.map_command creates
  rwa [← List.forall₂_eq_eq_eq, List.forall₂_map_left_iff, List.forall₂_map_right_iff] at hsame

theorem Remerged.length_positions (h : Remerged commands commands') (creates : Bool) :
    (positions commands creates).length = (positions commands' creates).length := by
  have hlength := congrArg List.length (h.map_command creates)
  rwa [List.length_map, List.length_map, ← List.length_map (f := Item.index), map_index_filter_items,
    ← List.length_map (f := Item.index), map_index_filter_items] at hlength

/-- At the same place among those of its kind stands the same command. -/
theorem Remerged.getElem?_positions (h : Remerged commands commands') {creates : Bool} {k i : Nat}
    (hi : (positions commands creates)[k]? = some i) :
    ∃ j, (positions commands' creates)[k]? = some j ∧ commands'[j]? = commands[i]? := by
  have hitem (l : List Command) {x : Item} (hx : x ∈ (items l).filter (·.command.createsNode == creates)) :
      l[x.index]? = some x.command := mem_items.mp (List.mem_of_mem_filter hx)
  rw [← map_index_filter_items, List.getElem?_map] at hi
  obtain ⟨x, hx, rfl⟩ := Option.map_eq_some_iff.mp hi
  have hcommand := congrArg (·[k]?) (h.map_command creates)
  simp only [List.getElem?_map, hx, Option.map_some] at hcommand
  obtain ⟨y, hy, hxy⟩ := Option.map_eq_some_iff.mp hcommand.symm
  refine ⟨y.index, ?_, ?_⟩
  · rw [← map_index_filter_items, List.getElem?_map, hy]
    rfl
  · rw [hitem commands (List.mem_of_getElem? hx), hitem commands' (List.mem_of_getElem? hy), hxy]

theorem abreast_apply (t : Occasion) {b : Board} (hb : ∀ id ∈ b.nodeIds, Unnumbered id) (h : Remerged commands commands')
    (hrefs : ∀ c ∈ commands, c.action.Unnumbered) :
    ∃ s s' last,
      (apply t b commands).run Memory.facility (.ofBoard b) = ((⟨s.outcomes, s.created, true⟩, s.notices), last) ∧
      (apply t b commands').run Memory.facility (.ofBoard b) = ((⟨s'.outcomes, s'.created, true⟩, s'.notices), last) ∧
      Abreast (s, last) (s', last) := by
  have hall := abreast_carryOutAll (t := t) (abreast_createAll (t := t) (abreast_begin hb) (h.sameCommand true) (t.grid.start b) 0)
    (h.sameCommand false) (fun i hi => hrefs i.command (List.mem_of_getElem? (mem_items.mp (List.mem_of_mem_filter hi)))) false
  unfold apply
  simp only [partition_items, Session.run_bind]
  generalize (carryOutAll t false _ _).run Memory.facility _ = x at hall ⊢
  generalize (carryOutAll t false _ _).run Memory.facility _ = x' at hall ⊢
  obtain ⟨s, last⟩ := x
  obtain ⟨s', last'⟩ := x'
  obtain rfl : last = last' := hall.memory
  exact ⟨s, s', last, rfl, rfl, hall⟩

/-! ### Reports -/

variable {report : Report} {notices : List Notice}

/-- Outcomes are found by their positions if these are all different. -/
theorem outcome?_of_getElem? (hnodup : (report.outcomes.map (·.index)).Nodup) {k : Nat} {o : Outcome}
    (ho : report.outcomes[k]? = some o) : report.outcome? o.index = some o := by
  have hmem : o ∈ report.outcomes := List.mem_of_getElem? ho
  unfold Report.outcome?
  cases hfound : report.outcomes.find? fun x => decide (x.index = o.index) with
  | none => simpa using List.find?_eq_none.mp hfound o hmem
  | some x =>
    have hindex : x.index = o.index := by simpa using List.find?_some hfound
    rw [List.inj_on_of_nodup_map hnodup (List.mem_of_find?_eq_some hfound) hmem hindex]

theorem Accounts.nodup (h : Accounts commands report notices) : (report.outcomes.map (·.index)).Nodup :=
  h.perm.nodup_iff.mpr List.nodup_range

theorem Accounts.outcome?_of_mem (h : Accounts commands report notices) {o : Outcome} (ho : o ∈ report.outcomes) :
    report.outcome? o.index = some o := by
  obtain ⟨k, hk⟩ := List.mem_iff_getElem?.mp ho
  exact outcome?_of_getElem? h.nodup hk

/-- Every command has an outcome. -/
theorem Accounts.exists_mem (h : Accounts commands report notices) {i : Nat} {c : Command} (hc : commands[i]? = some c) :
    ∃ o ∈ report.outcomes, o.index = i := by
  have hmem : i ∈ List.range commands.length := List.mem_range.mpr (List.getElem?_eq_some_iff.mp hc).1
  exact List.mem_map.mp (h.perm.mem_iff.mpr hmem)

/-- Where the outcome of a command stands in the report. -/
theorem Accounts.getElem?_outcomes (h : Accounts commands report notices) {creates : Bool} {k i : Nat}
    (hi : (positions commands creates)[k]? = some i) :
    ∃ o, report.outcomes[(if creates then 0 else (positions commands true).length) + k]? = some o ∧
      report.outcome? i = some o := by
  have hindex : (report.outcomes.map (·.index))[(if creates then 0 else (positions commands true).length) + k]? = some i := by
    rw [h.order]
    cases creates with
    | true =>
      rw [if_pos rfl, Nat.zero_add, List.getElem?_append_left (List.getElem?_eq_some_iff.mp hi).1, hi]
    | false =>
      rw [if_neg Bool.false_ne_true, List.getElem?_append_right (Nat.le_add_right _ _), Nat.add_sub_cancel_left, hi]
  rw [List.getElem?_map] at hindex
  obtain ⟨o, ho, rfl⟩ := Option.map_eq_some_iff.mp hindex
  exact ⟨o, ho, outcome?_of_getElem? h.nodup ho⟩

theorem accounts_of_run {σ : Type} {f : Facility σ} {b : Board} {x y : σ}
    (h : (apply t b commands).run f x = ((report, notices), y)) : Accounts commands report notices := by
  obtain ⟨_, _, _, hmade, _, hrest, hend⟩ := (ensures_apply t b commands).run f x
  have haccounts := accounts_of_reported hmade hrest
  rw [h] at hend
  cases hend
  exact haccounts

/-- Merging the commands that make nodes with the others in another way makes no difference to the journal, the board and
the nodes made, and a command and the one at the same place among those of its kind come to the same. No node on the board
and no reference to a node may look like a position; what nodes are called and what commands call them does not matter. So
it is for every order of the pins of new nodes: whatever the one batch can come to the other can. The nodes made are the same
even if the batches have different orders. -/
theorem apply_remerged (t : Setting) (orders : Nat → List String) {b : Board} (hb : ∀ id ∈ b.nodeIds, Unnumbered id)
    (h : Remerged commands commands') (hrefs : ∀ c ∈ commands, c.action.Unnumbered) :
    ∃ report report' notices notices' journal last,
      (apply ⟨t, orders⟩ b commands).run Memory.facility (.ofBoard b) = ((report, notices), ⟨last, journal⟩) ∧
      (apply ⟨t, orders⟩ b commands').run Memory.facility (.ofBoard b) = ((report', notices'), ⟨last, journal⟩) ∧
      report.created.map (·.node) = report'.created.map (·.node) ∧
      (∀ orders' : Nat → List String, report.created.map (·.node) =
        ((apply ⟨t, orders'⟩ b commands').run Memory.facility (.ofBoard b)).1.1.created.map (·.node)) ∧
      ∀ (creates : Bool) (k i : Nat), (positions commands creates)[k]? = some i →
        ∃ j o o', (positions commands' creates)[k]? = some j ∧ commands'[j]? = commands[i]? ∧
          report.outcome? i = some o ∧ report'.outcome? j = some o' ∧
          o.isApplied = o'.isApplied ∧ o.entity? = o'.entity? := by
  obtain ⟨s, s', ⟨last, journal⟩, hrun, hrun', hall⟩ := abreast_apply ⟨t, orders⟩ hb h hrefs
  refine ⟨_, _, _, _, journal, last, hrun, hrun', hall.created,
    fun orders' => hall.created.trans (created_of_run orders' hrun'), fun creates k i hi => ?_⟩
  obtain ⟨j, hj, hcommand⟩ := h.getElem?_positions hi
  obtain ⟨o, ho, hoi⟩ := (accounts_of_run hrun).getElem?_outcomes hi
  obtain ⟨o', ho', hoj⟩ := (accounts_of_run hrun').getElem?_outcomes hj
  -- As many nodes are asked for on either side, so both outcomes stand at the same place.
  rw [← h.length_positions true] at ho'
  have hresult := congrArg (·[(if creates then 0 else (positions commands true).length) + k]?) hall.results
  dsimp only at ho ho' hresult
  rw [List.getElem?_map, List.getElem?_map, ho, ho'] at hresult
  have hresult : o.result = o'.result := Option.some.inj hresult
  refine ⟨j, o, o', hj, hcommand, hoi, hoj, ?_, congrArg Prod.snd hresult⟩
  rw [o.isApplied_eq, o'.isApplied_eq, hresult]

/-- Two steps, one of which is called as if it were the first command, and the removal of the other. -/
def twoStepsMerged : List Command :=
  [⟨.removeNode "a", none⟩, ⟨.addPlaceholder ⟨"Step", some "a", none, none, none⟩, none⟩,
    ⟨.addPlaceholder ⟨"Check", some "$0", none, none, none⟩, none⟩]

/-- The same with the removal between the two. -/
def twoStepsRemerged : List Command :=
  [⟨.addPlaceholder ⟨"Step", some "a", none, none, none⟩, none⟩, ⟨.removeNode "a", none⟩,
    ⟨.addPlaceholder ⟨"Check", some "$0", none, none, none⟩, none⟩]

/-- The removal stands first in one batch and second in the other, and removes the same node. -/
theorem apply_remerged_twoSteps :
    let t : Setting := ⟨[], .standard, .zero, 0⟩
    let board := Board.blank "b" "board"
    (∀ id ∈ board.nodeIds, Unnumbered id) ∧ Remerged twoStepsMerged twoStepsRemerged ∧
    (∀ c ∈ twoStepsMerged, c.action.Unnumbered) ∧
    ∃ journal last o o',
      ((apply t board twoStepsMerged).run Memory.facility (.ofBoard board)).2 = ⟨last, journal⟩ ∧
      ((apply t board twoStepsRemerged).run Memory.facility (.ofBoard board)).2 = ⟨last, journal⟩ ∧
      journal.map (·.kind) = ["AddNode", "AddNode", "RemoveNode"] ∧
      ((apply t board twoStepsMerged).run Memory.facility (.ofBoard board)).1.1.outcome? 0 = some o ∧
      ((apply t board twoStepsRemerged).run Memory.facility (.ofBoard board)).1.1.outcome? 1 = some o' ∧
      o.entity? = some "node-1" ∧ o'.entity? = some "node-1" := by
  intro t board
  have hids : ∀ id ∈ board.nodeIds, Unnumbered id := by decide
  have hmerged : Remerged twoStepsMerged twoStepsRemerged := fun creates => by cases creates <;> rfl
  have hrefs : ∀ c ∈ twoStepsMerged, c.action.Unnumbered := by decide
  obtain ⟨report, report', notices, notices', journal, last, hrun, hrun', -, -, hsame⟩ :=
    apply_remerged t (fun _ => []) hids hmerged hrefs
  obtain ⟨j, o, o', hj, -, ho, ho', -, hentity⟩ := hsame false 0 0 (by decide)
  obtain rfl : 1 = j := Option.some.inj hj
  have hjournal : (((apply t board twoStepsMerged).run Memory.facility (.ofBoard board)).2.journal.map (·.kind)) =
      ["AddNode", "AddNode", "RemoveNode"] := by decide
  have hremoved : (((apply t board twoStepsMerged).run Memory.facility (.ofBoard board)).1.1.outcome? 0).map (·.entity?) =
      some (some "node-1") := by decide
  rw [hrun] at hjournal hremoved
  rw [ho] at hremoved
  have hid := Option.some.inj hremoved
  exact ⟨hids, hmerged, hrefs, journal, last, o, o', by rw [hrun], by rw [hrun'], hjournal, by rw [hrun, ho],
    by rw [hrun', ho'], hid, hentity.symm.trans hid⟩

end Batch

end Workboard
