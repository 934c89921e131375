import Workboard.Proofs.Merging
import Workboard.Proofs.Refetching

/-! Leaving out commands that fail.

A command that fails leaves no trace but its report: the board stays, and the view is at most fetched once more. So a batch
comes to the same without it (`Batch.apply_retain`). The run of the whole batch, with only the outcomes of the commands
that are kept, is followed beside the run of these alone; where the views differ they are fetched again
(`Batch.Beside`). -/

namespace Workboard

/-- The outcomes of the commands that are kept. -/
def Progress.pick (keep : Nat → Bool) (s : Progress) : Progress := { s with outcomes := s.outcomes.filter (keep ·.index) }

namespace Batch

open Progress

variable {t : Occasion} {s s' : Progress} {m m' : Memory} {i i' : Item} {l : List Item} {keep : Nat → Bool}
  {commands : List Command}

/-! ### Positions -/

/-- The commands at the positions that are kept. -/
def retain (keep : Nat → Bool) (commands : List Command) : List Command :=
  ((items commands).filter (keep ·.index)).map (·.command)

/-- How many positions before one are kept. -/
def rank (keep : Nat → Bool) (i : Nat) : Nat := (List.range i).countP keep

/-- An item where it stands among those that are kept. -/
def moved (keep : Nat → Bool) (i : Item) : Item := ⟨rank keep i.index, i.command⟩

theorem items_concat (commands : List Command) (c : Command) :
    items (commands ++ [c]) = items commands ++ [⟨commands.length, c⟩] := by
  simp [items, List.zipIdx_append]

theorem length_retain (keep : Nat → Bool) (commands : List Command) :
    (retain keep commands).length = rank keep commands.length := by
  rw [retain, rank, List.length_map, ← List.countP_eq_length_filter, ← map_index_items, List.countP_map]
  rfl

theorem items_retain (keep : Nat → Bool) (commands : List Command) :
    items (retain keep commands) = ((items commands).filter (keep ·.index)).map (moved keep) := by
  induction commands using List.reverseRecOn with
  | nil => rfl
  | append_singleton commands c ih =>
    have hretain : retain keep (commands ++ [c]) = retain keep commands ++ if keep commands.length then [c] else [] := by
      unfold retain
      rw [items_concat, List.filter_append, List.map_append]
      cases hkeep : keep commands.length <;> simp [hkeep]
    rw [hretain, items_concat, List.filter_append, List.map_append, ← ih]
    cases hkeep : keep commands.length with
    | true => simp [hkeep, items_concat, length_retain, moved]
    | false => simp [hkeep]

theorem filter_items_retain (keep : Nat → Bool) (commands : List Command) (creates : Bool) :
    (items (retain keep commands)).filter (·.command.createsNode == creates) =
      (((items commands).filter (·.command.createsNode == creates)).filter (keep ·.index)).map (moved keep) := by
  rw [items_retain, List.filter_map, List.filter_filter, List.filter_filter]
  simp only [Bool.and_comm]
  rfl

theorem positions_retain (keep : Nat → Bool) (commands : List Command) (creates : Bool) :
    positions (retain keep commands) creates = ((positions commands creates).filter keep).map (rank keep) := by
  rw [← map_index_filter_items, ← map_index_filter_items, filter_items_retain, List.filter_map, List.map_map, List.map_map]
  rfl

theorem getElem?_retain {i : Nat} {c : Command} (hc : commands[i]? = some c) (hkeep : keep i = true) :
    (retain keep commands)[rank keep i]? = some c := by
  have hitem : (⟨i, c⟩ : Item) ∈ (items commands).filter (keep ·.index) := List.mem_filter.mpr ⟨mem_items.mpr hc, hkeep⟩
  have hmoved : moved keep ⟨i, c⟩ ∈ items (retain keep commands) := by
    rw [items_retain]
    exact List.mem_map_of_mem hitem
  exact mem_items.mp hmoved

/-! ### Items -/

/-- A run of which only the outcomes of kept commands are looked at, and one of these commands alone. In the second round
they are abreast as soon as both have fetched the board. -/
structure Beside (keep : Nat → Bool) (x x' : Progress × Memory) : Prop where
  keyed : x.2.board.Keyed
  abreast : Abreast ({ x.1.pick keep with view := x.2.board }, x.2) ({ x'.1 with view := x'.2.board }, x'.2)

theorem keyed_perform (h : m.board.Keyed) : ((perform t s i).run Memory.facility m).2.board.Keyed := by
  rcases run_perform_cases t s i m with ⟨e, -, hrun⟩ | ⟨mutation, hm, ⟨e, -, hrun⟩ | ⟨r, -, hrun⟩⟩
  · rw [hrun]
    exact h
  · rw [hrun]
    exact h.execute (Action.proper_mutation hm).1
  · rw [hrun]
    exact h.execute (Action.proper_mutation hm).1

theorem pick_failed (hkeep : keep i.index = true) (s : Progress) (e : ApplyError) :
    (s.failed i e).pick keep = (s.pick keep).failed i e := by
  simp [Progress.pick, Progress.failed, hkeep]

theorem pick_applied (hkeep : keep i.index = true) (s : Progress) (entity : String) :
    (s.applied i entity).pick keep = (s.pick keep).applied i entity := by
  simp [Progress.pick, Progress.applied, hkeep]

/-- Which outcomes are looked at makes no difference to an item. -/
theorem run_perform_pick {σ : Type} (hkeep : keep i.index = true) (f : Facility σ) (x : σ) :
    (perform t (s.pick keep) i).run f x = (((perform t s i).run f x).1.pick keep, ((perform t s i).run f x).2) := by
  unfold perform
  rw [show (s.pick keep).refs = s.refs from rfl, show (s.pick keep).view = s.view from rfl]
  cases i.command.action.mutation s.refs s.view t.now with
  | error e => simp only [Session.run, pick_failed hkeep]
  | ok mutation =>
    simp only [Session.run]
    rcases (f.execute mutation x).1 with e | r
    · simp only [Session.run, pick_failed hkeep]
    · simp only [Session.run, pick_applied hkeep]

theorem Beside.kept (h : Beside keep (s, m) (s', m')) (hkeep : keep i.index = true) (hi : SameCommand i i')
    (hrefs : i.command.action.Unnumbered) :
    Beside keep ((perform t { s with view := m.board } i).run Memory.facility m)
      ((perform t { s' with view := m'.board } i').run Memory.facility m') where
  keyed := keyed_perform h.keyed
  abreast := by
    have hone := (abreast_perform (t := t) h.abreast hi hrefs).of_view
    rw [show ({ s.pick keep with view := m.board } : Progress) = ({ s with view := m.board } : Progress).pick keep from rfl,
      run_perform_pick hkeep] at hone
    exact hone

/-- A command that fails may be left out. -/
theorem Beside.omitted (h : Beside keep (s, m) (s', m')) (hkeep : keep i.index = false)
    (hfailed : ∀ o ∈ ((perform t { s with view := m.board } i).run Memory.facility m).1.outcomes,
      keep o.index = false → o.isApplied = false) :
    Beside keep ((perform t { s with view := m.board } i).run Memory.facility m) (s', m') := by
  have hfail (e : ApplyError) : Beside keep ({ s with view := m.board }.failed i e, m) (s', m') := by
    have houtcomes : ((({ s with view := m.board } : Progress).failed i e).pick keep).outcomes = (s.pick keep).outcomes := by
      simp [Progress.pick, Progress.failed, hkeep]
    exact ⟨h.keyed, h.abreast.memory, h.abreast.view, h.abreast.refs, houtcomes ▸ h.abreast.outcomes, h.abreast.created,
      h.abreast.holders, h.abreast.known, h.abreast.board⟩
  rcases run_perform_cases t { s with view := m.board } i m with
    ⟨e, -, hrun⟩ | ⟨mutation, -, ⟨e, he, hrun⟩ | ⟨r, -, hrun⟩⟩
  · rw [hrun]
    exact hfail e
  · rw [hrun, h.keyed.board_of_error he]
    exact hfail _
  · rw [hrun] at hfailed
    have happlied := hfailed ⟨i.index, i.command.kind, .applied r.id⟩ (by simp [Progress.applied]) hkeep
    cases happlied

/-! ### Rounds -/

theorem mem_outcomes_carryOutAll {σ : Type} (f : Facility σ) (x : σ) (l : List Item) (outdated : Bool) {o : Outcome}
    (ho : o ∈ s.outcomes) : o ∈ ((carryOutAll t outdated s l).run f x).1.outcomes := by
  obtain ⟨outcomes, h⟩ := (deals_carryOutAll t l outdated s).run f x
  rw [h.added]
  exact List.mem_append_left outcomes ho

theorem beside_carryOutAll (h : Beside keep (s, m) (s', m')) (hrefs : ∀ i ∈ l, i.command.action.Unnumbered)
    (hfailed : ∀ o ∈ ((carryOutAll t true s l).run Memory.facility m).1.outcomes, keep o.index = false → o.isApplied = false) :
    Beside keep ((carryOutAll t true s l).run Memory.facility m)
      ((carryOutAll t true s' ((l.filter (keep ·.index)).map (moved keep))).run Memory.facility m') := by
  induction l generalizing s s' m m' with
  | nil => exact h
  | cons i r ih =>
    have hrest : ∀ j ∈ r, j.command.action.Unnumbered := fun j hj => hrefs j (List.mem_cons_of_mem i hj)
    rw [run_carryOutAll_cons Memory.settled, run_carryOut_outdated, Bool.true_or] at hfailed ⊢
    cases hkeep : keep i.index with
    | true =>
      rw [List.filter_cons, if_pos hkeep, List.map_cons, run_carryOutAll_cons Memory.settled, run_carryOut_outdated,
        Bool.true_or]
      exact ih (h.kept hkeep rfl (hrefs i List.mem_cons_self)) hrest hfailed
    | false =>
      rw [List.filter_cons, hkeep, if_neg Bool.false_ne_true]
      refine ih (h.omitted hkeep fun o ho => hfailed o ?_) hrest hfailed
      exact mem_outcomes_carryOutAll _ _ r true ho

/-! ### Batches -/

theorem sameCommand_moved (keep : Nat → Bool) (l : List Item) : List.Forall₂ SameCommand l (l.map (moved keep)) := by
  rw [List.forall₂_map_right_iff]
  exact List.forall₂_same.mpr fun _ _ => rfl

/-- All commands that make nodes are kept. -/
theorem filter_creations (hothers : ∀ i c, commands[i]? = some c → keep i = false → c.createsNode = false) :
    ((items commands).filter (·.command.createsNode == true)).filter (keep ·.index) =
      (items commands).filter (·.command.createsNode == true) := by
  refine List.filter_eq_self.mpr fun i hi => ?_
  obtain ⟨hi, hcreates⟩ := List.mem_filter.mp hi
  by_contra hkeep
  rw [hothers i.index i.command (mem_items.mp hi) (by simpa using hkeep)] at hcreates
  cases hcreates

theorem beside_createAll {b : Board} (hb : b.Keyed) (hids : ∀ id ∈ b.nodeIds, Unnumbered id)
    (hl : l.filter (keep ·.index) = l) (start : Spot) :
    Beside keep ((createAll t start 0 (.begin b) l).run Memory.facility (.ofBoard b))
      ((createAll t start 0 (.begin b) (l.map (moved keep))).run Memory.facility (.ofBoard b)) := by
  have hfirst := abreast_createAll (t := t) (abreast_begin hids) (sameCommand_moved keep l) start 0
  have halike := alike_createAll (t := t) (s := .begin b) (m := .ofBoard b) start l 0 (.refl hb)
  obtain ⟨made, hmade⟩ := (deals_createAll t start l 0 (.begin b)).run Memory.facility (.ofBoard b)
  generalize (createAll t start 0 (.begin b) l).run Memory.facility (.ofBoard b) = x at hfirst halike hmade ⊢
  have houtcomes : x.1.outcomes.filter (keep ·.index) = x.1.outcomes := by
    refine List.filter_eq_self.mpr fun o ho => ?_
    rw [hmade.added] at ho
    obtain ⟨i, hi, hindex, -⟩ := hmade.item_of_mem ho
    rw [← hl] at hi
    rw [← hindex]
    exact (List.mem_filter.mp hi).2
  have hpick : x.1.pick keep = x.1 := congrArg (fun outcomes => { x.1 with outcomes }) houtcomes
  exact ⟨halike.right, by rw [hpick]; exact hfirst.of_view⟩

/-- The runs of a batch and of what is kept of it, at their ends. The views there do not matter. -/
theorem beside_apply (t : Occasion) {b : Board} (hb : b.Keyed) (hids : ∀ id ∈ b.nodeIds, Unnumbered id)
    (hrefs : ∀ c ∈ commands, c.action.Unnumbered)
    (hothers : ∀ i c, commands[i]? = some c → keep i = false → c.createsNode = false)
    (hfailed : ∀ o ∈ ((apply t b commands).run Memory.facility (.ofBoard b)).1.1.outcomes,
      keep o.index = false → o.isApplied = false) :
    ∃ s s' last,
      (apply t b commands).run Memory.facility (.ofBoard b) = ((⟨s.outcomes, s.created, true⟩, s.notices), last) ∧
      (apply t b (retain keep commands)).run Memory.facility (.ofBoard b) =
        ((⟨s'.outcomes, s'.created, true⟩, s'.notices), last) ∧
      Beside keep (s, last) (s', last) := by
  have hall := filter_creations hothers
  have hbeside := beside_createAll (t := t) hb hids hall (t.grid.start b)
  have halike := alike_createAll (t := t) (s := .begin b) (m := .ofBoard b) (t.grid.start b)
    ((items commands).filter (·.command.createsNode == true)) 0 (.refl hb)
  have halike' := alike_createAll (t := t) (s := .begin b) (m := .ofBoard b) (t.grid.start b)
    (((items commands).filter (·.command.createsNode == true)).map (moved keep)) 0 (.refl hb)
  unfold apply at hfailed ⊢
  simp only [partition_items, filter_items_retain, hall, Session.run_bind] at hfailed ⊢
  generalize (createAll t _ 0 _ (((items commands).filter (·.command.createsNode == true)))).run _ _ = x at *
  generalize (createAll t _ 0 _ _).run _ _ = x' at *
  -- From here on both may fetch the board before every item.
  obtain ⟨w, hw⟩ := run_carryOutAll_view (t := t) ((items commands).filter (·.command.createsNode == false)) false
    (fun _ => halike) x.1.view
  obtain ⟨w', hw'⟩ := run_carryOutAll_view (t := t)
    ((((items commands).filter (·.command.createsNode == false)).filter (keep ·.index)).map (moved keep)) false
    (fun _ => halike') x'.1.view
  have hlast := beside_carryOutAll (t := t) hbeside
    (fun i hi => hrefs i.command (List.mem_of_getElem? (mem_items.mp (List.mem_of_mem_filter hi)))) (by rw [hw]; exact hfailed)
  rw [hw, hw'] at hlast
  generalize (carryOutAll t false x.1 _).run Memory.facility x.2 = y at hlast ⊢
  generalize (carryOutAll t false x'.1 _).run Memory.facility x'.2 = y' at hlast ⊢
  obtain ⟨s, last⟩ := y
  obtain ⟨s', last'⟩ := y'
  obtain rfl : last = last' := hlast.abreast.memory
  exact ⟨s, s', last, rfl, rfl, hlast.keyed, hlast.abreast⟩

/-- The outcomes of the kept commands stand in the same order at their new positions. -/
theorem map_index_retain {report report' : Report} {notices notices' : List Notice} (h : Accounts commands report notices)
    (h' : Accounts (retain keep commands) report' notices') :
    (report.outcomes.filter (keep ·.index)).map (fun o => rank keep o.index) = report'.outcomes.map (·.index) := by
  have hindex : (report.outcomes.filter (keep ·.index)).map (·.index) =
      (positions commands true ++ positions commands false).filter keep := by
    rw [← h.order, List.filter_map]
    rfl
  rw [h'.order, positions_retain, positions_retain, ← List.map_append, ← List.filter_append, ← hindex, List.map_map]
  rfl

/-- Commands that fail and make no nodes may be left out of a batch: the journal, the board and the nodes made are the same
without them, and so is what every other command comes to, the positions in the reasons of failures apart. No node on the
board and no reference to a node may look like a position. So it is for every order of the pins of new nodes: if the commands
fail in some order, whatever the whole batch comes to in this order the rest can come to. The nodes made are the same even if
the rest has another order. -/
theorem apply_retain (t : Setting) (orders : Nat → List String) {b : Board} (hb : b.Keyed)
    (hids : ∀ id ∈ b.nodeIds, Unnumbered id) (hrefs : ∀ c ∈ commands, c.action.Unnumbered)
    (hfailed : ∀ i c, commands[i]? = some c → keep i = false → c.createsNode = false ∧
      ∃ o, ((apply ⟨t, orders⟩ b commands).run Memory.facility (.ofBoard b)).1.1.outcome? i = some o ∧ o.isApplied = false) :
    ∃ report report' notices notices' journal last,
      (apply ⟨t, orders⟩ b commands).run Memory.facility (.ofBoard b) = ((report, notices), ⟨last, journal⟩) ∧
      (apply ⟨t, orders⟩ b (retain keep commands)).run Memory.facility (.ofBoard b) = ((report', notices'), ⟨last, journal⟩) ∧
      report.created.map (·.node) = report'.created.map (·.node) ∧
      (∀ orders' : Nat → List String, report.created.map (·.node) =
        ((apply ⟨t, orders'⟩ b (retain keep commands)).run Memory.facility (.ofBoard b)).1.1.created.map (·.node)) ∧
      ∀ i c, commands[i]? = some c → keep i = true →
        (retain keep commands)[rank keep i]? = some c ∧
        ∃ o o', report.outcome? i = some o ∧ report'.outcome? (rank keep i) = some o' ∧
          o.isApplied = o'.isApplied ∧ o.entity? = o'.entity? ∧ o.SameButPositions o' := by
  have hlost : ∀ o ∈ ((apply ⟨t, orders⟩ b commands).run Memory.facility (.ofBoard b)).1.1.outcomes,
      keep o.index = false → o.isApplied = false := by
    intro o ho hkeep
    have haccounts := apply_accounts ⟨t, orders⟩ b commands Memory.facility (.ofBoard b)
    obtain ⟨c, hc, -⟩ := haccounts.kind o ho
    obtain ⟨-, o', ho', hfail⟩ := hfailed o.index c hc hkeep
    rw [haccounts.outcome?_of_mem ho] at ho'
    cases ho'
    exact hfail
  obtain ⟨s, s', ⟨last, journal⟩, hrun, hrun', h⟩ := beside_apply ⟨t, orders⟩ hb hids hrefs
    (fun i c hc hkeep => (hfailed i c hc hkeep).1) hlost
  have haccounts := accounts_of_run hrun
  have haccounts' := accounts_of_run hrun'
  refine ⟨_, _, _, _, journal, last, hrun, hrun', h.abreast.created,
    fun orders' => h.abreast.created.trans (created_of_run orders' hrun'), fun i c hc hkeep => ⟨getElem?_retain hc hkeep, ?_⟩⟩
  obtain ⟨o, ho, rfl⟩ := haccounts.exists_mem hc
  have hpairs : List.Forall₂ (fun o o' => rank keep o.index = o'.index ∧ o.SameButPositions o')
      (s.outcomes.filter (keep ·.index)) s'.outcomes := by
    have hindex := map_index_retain haccounts haccounts'
    rw [← List.forall₂_eq_eq_eq, List.forall₂_map_left_iff, List.forall₂_map_right_iff] at hindex
    exact hindex.mp (fun _ _ => And.intro) h.abreast.outcomes
  obtain ⟨o', ho', hindex, hsame⟩ := exists_of_forall₂ hpairs (List.mem_filter.mpr ⟨ho, hkeep⟩)
  refine ⟨o, o', haccounts.outcome?_of_mem ho, hindex ▸ haccounts'.outcome?_of_mem ho', ?_, congrArg Prod.snd hsame.result, hsame⟩
  rw [o.isApplied_eq, o'.isApplied_eq, hsame.result]

/-- The removal of a node that there is not, and a step that is made and removed. -/
def strayRemoval : List Command :=
  [⟨.removeNode "missing", none⟩, ⟨.addPlaceholder ⟨"Step", some "a", none, none, none⟩, none⟩, ⟨.removeNode "a", none⟩]

/-- Without the first removal, which fails, the step stands at another position, and the other removal does the same. -/
theorem apply_retain_strayRemoval :
    let t : Setting := ⟨[], .standard, .zero, 0⟩
    let board := Board.blank "b" "board"
    let keep : Nat → Bool := fun i => i ≠ 0
    board.Keyed ∧ (∀ id ∈ board.nodeIds, Unnumbered id) ∧ (∀ c ∈ strayRemoval, c.action.Unnumbered) ∧
    (∀ i c, strayRemoval[i]? = some c → keep i = false → c.createsNode = false ∧
      ∃ o, ((apply t board strayRemoval).run Memory.facility (.ofBoard board)).1.1.outcome? i = some o ∧ o.isApplied = false) ∧
    (retain keep strayRemoval).map (·.kind) = ["AddPlaceholder", "RemoveNode"] ∧
    ∃ journal last o o',
      ((apply t board strayRemoval).run Memory.facility (.ofBoard board)).2 = ⟨last, journal⟩ ∧
      ((apply t board (retain keep strayRemoval)).run Memory.facility (.ofBoard board)).2 = ⟨last, journal⟩ ∧
      journal.map (·.kind) = ["AddNode", "RemoveNode"] ∧
      ((apply t board strayRemoval).run Memory.facility (.ofBoard board)).1.1.outcome? 2 = some o ∧
      ((apply t board (retain keep strayRemoval)).run Memory.facility (.ofBoard board)).1.1.outcome? 1 = some o' ∧
      o.entity? = some "node-1" ∧ o'.entity? = some "node-1" := by
  intro t board keep
  have hkeyed : board.Keyed := by decide
  have hids : ∀ id ∈ board.nodeIds, Unnumbered id := by decide
  have hrefs : ∀ c ∈ strayRemoval, c.action.Unnumbered := by decide
  have hfailed : ∀ i c, strayRemoval[i]? = some c → keep i = false → c.createsNode = false ∧
      ∃ o, ((apply t board strayRemoval).run Memory.facility (.ofBoard board)).1.1.outcome? i = some o ∧
        o.isApplied = false := by
    intro i c hc hkeep
    obtain rfl : i = 0 := by simpa [keep] using hkeep
    cases hc
    have hfirst : (((apply t board strayRemoval).run Memory.facility (.ofBoard board)).1.1.outcome? 0).map (·.isApplied) =
        some false := by decide
    exact ⟨rfl, Option.map_eq_some_iff.mp hfirst⟩
  obtain ⟨report, report', notices, notices', journal, last, hrun, hrun', -, -, hsame⟩ :=
    apply_retain t (fun _ => []) hkeyed hids hrefs hfailed
  obtain ⟨-, o, o', ho, ho', -, hentity, -⟩ := hsame 2 ⟨.removeNode "a", none⟩ rfl rfl
  have hjournal : (((apply t board strayRemoval).run Memory.facility (.ofBoard board)).2.journal.map (·.kind)) =
      ["AddNode", "RemoveNode"] := by decide
  have hremoved : (((apply t board strayRemoval).run Memory.facility (.ofBoard board)).1.1.outcome? 2).map (·.entity?) =
      some (some "node-1") := by decide
  rw [hrun] at hjournal hremoved
  rw [ho] at hremoved
  have hid := Option.some.inj hremoved
  exact ⟨hkeyed, hids, hrefs, hfailed, by decide, journal, last, o, o', by rw [hrun], by rw [hrun'], hjournal, by rw [hrun, ho],
    by rw [hrun', ← ho']; rfl, hid, hentity.symm.trans hid⟩

end Batch

end Workboard
