import Workboard.Proofs.Log
import Workboard.Proofs.Texts

/-! Batches that cannot fetch the board.

When a fetch is refused, a batch goes on with the view that it has. Variables and comments are stored as a whole,
with one edit applied to what the view has; so of several commands on one of them with no fetch in between only
the last has a lasting effect (`Batch.apply_follows_edits`). If there is a fetch between any two of them, all have
(`Batch.look_apply_of_nodup`). -/

namespace Workboard

/-! ### A memory that refuses snapshots -/

/-- A memory, and how it was asked. -/
structure Flaky where
  memory : Memory
  /-- How often a snapshot was asked for. -/
  asked : Nat
  /-- How often one was given. -/
  given : Nat
  /-- For each mutation of the journal, how many snapshots had been given by then. -/
  epochs : List Nat

namespace Flaky

def ofBoard (b : Board) : Flaky := ⟨.ofBoard b, 0, 0, []⟩

/-- Some snapshots are refused, by their number. -/
def facility (refused : Nat → Option Refusal) : Facility Flaky where
  execute m s :=
    match s.memory.execute m with
    | (.ok r, memory) => (.ok r, { s with memory, epochs := s.epochs ++ [s.given] })
    | (.error e, memory) => (.error e, { s with memory })
  snapshot s :=
    match refused s.asked with
    | some e => (.error e, { s with asked := s.asked + 1 })
    | none => (.ok s.memory.board, { s with asked := s.asked + 1, given := s.given + 1 })
  fence _ s := (true, s)

theorem settled (refused : Nat → Option Refusal) : (facility refused).Settled := fun _ _ => rfl

end Flaky

/-! ### Commands with a lasting effect -/

/-- Of the commands that were carried out on one view only the last has a lasting effect. -/
def lasting : List (Action × Nat) → List (Action × Nat)
  | [] => []
  | c :: r => if r.any (·.2 = c.2) then lasting r else c :: lasting r

theorem lasting_concat (l : List (Action × Nat)) (c : Action × Nat) :
    lasting (l ++ [c]) = lasting (l.filter (·.2 ≠ c.2)) ++ [c] := by
  induction l with
  | nil => simp [lasting]
  | cons d l ih =>
    rw [List.cons_append, lasting, ih]
    by_cases hc : d.2 = c.2
    · simp [hc]
    · have hany : (l ++ [c]).any (·.2 = d.2) = (l.filter (·.2 ≠ c.2)).any (·.2 = d.2) := by
        have hc' : c.2 ≠ d.2 := fun e => hc e.symm
        rw [List.any_append, List.any_filter]
        simp only [List.any_cons, List.any_nil, hc', decide_false, Bool.or_false]
        refine List.any_congr rfl fun a => ?_
        by_cases ha : a.2 = d.2
        · simp [ha, hc]
        · simp [ha]
      rw [hany, List.filter_cons_of_pos (by simpa using hc), lasting]
      split <;> rfl

/-- If no two commands were carried out on one view, all of them have a lasting effect. -/
theorem lasting_eq_self {l : List (Action × Nat)} (h : (l.map (·.2)).Nodup) : lasting l = l := by
  induction l with
  | nil => rfl
  | cons c l ih =>
    obtain ⟨hc, hl⟩ := List.nodup_cons.mp h
    have hnone : l.any (·.2 = c.2) = false := by
      refine List.any_eq_false.mpr fun d hd hdc => hc ?_
      exact List.mem_map.mpr ⟨d, hd, of_decide_eq_true hdc⟩
    rw [lasting, hnone, ih hl]
    rfl

/-! ### Edits -/

/-- What the last element that gives something gives. -/
def lastGiven {α ε : Type} (f : ε → Option α) (l : List ε) : Option α := (l.filterMap f).getLast?

theorem lastGiven_concat {α ε : Type} (f : ε → Option α) (l : List ε) (e : ε) :
    lastGiven f (l ++ [e]) = (f e).or (lastGiven f l) := by
  unfold lastGiven
  rw [List.filterMap_append, List.getLast?_append]
  cases h : f e <;> simp [h]

/-- Several edits in one: each part is set as by the last edit that sets it. -/
def VariableEdit.merge (l : List VariableEdit) : VariableEdit :=
  ⟨lastGiven (·.name) l, lastGiven (·.value) l, lastGiven (·.description) l⟩

theorem VariableEdit.foldl_apply (l : List VariableEdit) (v : Variable) :
    l.foldl (fun v e => e.apply v) v = (merge l).apply v := by
  induction l using List.reverseRecOn with
  | nil => rfl
  | append_singleton l e ih =>
    rw [List.foldl_append, ih]
    unfold merge
    simp only [lastGiven_concat]
    obtain ⟨name, value, description⟩ := e
    cases name <;> cases value <;> cases description <;> rfl

def CommentEdit.merge (l : List CommentEdit) : CommentEdit :=
  ⟨lastGiven (·.content) l, lastGiven (·.color) l, lastGiven (·.spot) l⟩

theorem CommentEdit.foldl_apply (now : UInt64) (l : List CommentEdit) (c : Comment) :
    l.foldl (fun c e => (e.apply now c).text) c.text = ((merge l).apply now c).text := by
  induction l using List.reverseRecOn with
  | nil => rfl
  | append_singleton l e ih =>
    rw [List.foldl_append, ih]
    unfold merge
    simp only [lastGiven_concat]
    obtain ⟨content, color, spot⟩ := e
    cases content <;> cases color <;> cases spot <;> cases lastGiven (·.spot) l <;> rfl

namespace Aspect

variable {α ε : Type} {now : UInt64} (A : Aspect α ε now)

/-- The commands that have to do with it. -/
def concerned (l : List (Action × Nat)) : List (Action × Nat) :=
  l.filter fun c => (A.edit? c.1).isSome || A.deletes c.1

/-- What commands make of it, each on what the ones before have made. -/
def replay (start : Option α) (l : List (Action × Nat)) : Option α :=
  l.foldl (fun v c =>
    match c.1.effect? A.edit? A.deletes A.put with
    | some f => v.bind f
    | none => v) start

theorem replay_concat (start : Option α) (l : List (Action × Nat)) (c : Action × Nat) :
    A.replay start (l ++ [c]) =
      match c.1.effect? A.edit? A.deletes A.put with
      | some f => (A.replay start l).bind f
      | none => A.replay start l := by
  unfold replay
  rw [List.foldl_append]
  rfl

/-- It is gone if one of the commands deletes it, and else edited by all that edit it. -/
theorem replay_eq (start : Option α) (l : List (Action × Nat)) :
    A.replay start l =
      if l.any (A.deletes ·.1) then none
      else start.map fun v => (l.filterMap (A.edit? ·.1)).foldl (fun v e => A.put e v) v := by
  induction l using List.reverseRecOn with
  | nil =>
    show start = start.map fun v => v
    rw [Option.map_id']
  | append_singleton l c ih =>
    rw [replay_concat, ih, List.any_append, List.filterMap_append]
    unfold Action.effect?
    cases hedit : A.edit? c.1 with
    | some e =>
      have hkeeps := A.apart (a := c.1) (by rw [hedit]; rfl)
      by_cases hany : l.any (A.deletes ·.1) = true
      · simp [hany, hkeeps]
      · cases start <;> simp [hany, hkeeps, hedit, List.foldl_append]
    | none =>
      cases hdeletes : A.deletes c.1 with
      | true => simp [hdeletes]
      | false =>
        simp only [List.any_cons, List.any_nil, hdeletes, Bool.or_false, List.filterMap_cons, List.filterMap_nil, hedit,
          List.append_nil, Bool.false_eq_true, if_false]

theorem isSome_effect? {edit? : Action → Option ε} {deletes : Action → Bool} {put : ε → α → α} (a : Action) :
    (a.effect? edit? deletes put).isSome = ((edit? a).isSome || deletes a) := by
  unfold Action.effect?
  cases edit? a <;> cases deletes a <;> rfl

theorem concerned_concat_of_some {l : List (Action × Nat)} {c : Action × Nat} {f : α → Option α}
    (h : c.1.effect? A.edit? A.deletes A.put = some f) : A.concerned (l ++ [c]) = A.concerned l ++ [c] := by
  rw [concerned, List.filter_append, List.filter_cons_of_pos, List.filter_nil]
  · rfl
  · rw [← isSome_effect?, h]
    rfl

theorem concerned_concat_of_none {l : List (Action × Nat)} {c : Action × Nat}
    (h : c.1.effect? A.edit? A.deletes A.put = none) : A.concerned (l ++ [c]) = A.concerned l := by
  rw [concerned, List.filter_append, List.filter_cons_of_neg, List.filter_nil, List.append_nil]
  · rfl
  · rw [← isSome_effect?, h]
    exact Bool.false_ne_true

/-- The other commands leave it. -/
theorem replay_concerned (start : Option α) (l : List (Action × Nat)) : A.replay start (A.concerned l) = A.replay start l := by
  induction l using List.reverseRecOn with
  | nil => rfl
  | append_singleton l c ih =>
    cases heffect : c.1.effect? A.edit? A.deletes A.put with
    | some f => rw [concerned_concat_of_some A heffect, replay_concat, replay_concat, ih]
    | none => rw [concerned_concat_of_none A heffect, replay_concat, heffect, ih]

end Aspect

namespace Batch

open Board Progress

/-! ### Histories -/

variable {α ε : Type} {t : Occasion} {commands : List Command} {refused : Nat → Option Refusal} {outcomes : List Outcome}
  {epochs : List Nat}

/-- The applied commands, each with the number of snapshots that had been given by then. -/
def history (commands : List Command) (outcomes : List Outcome) (epochs : List Nat) : List (Action × Nat) :=
  ((outcomes.filter (·.isApplied)).zip epochs).filterMap fun p => (commands[p.1.index]?).map fun c => (c.action, p.2)

/-- The actions of the applied commands. -/
def appliedActions (commands : List Command) (outcomes : List Outcome) : List (Option Action) :=
  (outcomes.filter (·.isApplied)).map fun o => (commands[o.index]?).map (·.action)

theorem history_concat (hlength : (outcomes.filter (·.isApplied)).length = epochs.length) {o : Outcome}
    (ho : o.isApplied = true) {c : Command} (hc : commands[o.index]? = some c) (epoch : Nat) :
    history commands (outcomes ++ [o]) (epochs ++ [epoch]) = history commands outcomes epochs ++ [(c.action, epoch)] := by
  unfold history
  rw [List.filter_append, List.filter_cons_of_pos ho, List.filter_nil, List.zip_append hlength, List.filterMap_append]
  simp [hc]

theorem epoch_mem_of_mem_history {p : Action × Nat} (h : p ∈ history commands outcomes epochs) : p.2 ∈ epochs := by
  obtain ⟨⟨o, epoch⟩, hmem, he⟩ := List.mem_filterMap.mp h
  obtain ⟨c, -, rfl⟩ := Option.map_eq_some_iff.mp he
  exact (List.of_mem_zip hmem).2

/-- How something stands while a batch runs: on the board as by the commands with a lasting effect so far, and on
    the batch's view as by those before the snapshot that was given last. -/
structure Tracked (A : Aspect α ε t.now) (commands : List Command) (start : Option α) (p : Progress) (s : Flaky) : Prop where
  view : p.view.Recorded
  board : s.memory.board.Recorded
  length : (p.outcomes.filter (·.isApplied)).length = s.epochs.length
  told : (history commands p.outcomes s.epochs).map (some ·.1) = appliedActions commands p.outcomes
  past : ∀ epoch ∈ s.epochs, epoch ≤ s.given
  stands : A.look s.memory.board = A.replay start (lasting (A.concerned (history commands p.outcomes s.epochs)))
  seen : A.look p.view =
    A.replay start (lasting ((A.concerned (history commands p.outcomes s.epochs)).filter (·.2 < s.given)))

variable {A : Aspect α ε t.now} {start : Option α} {p q : Progress} {s : Flaky} {i : Item}

/-- An item fails, and the board still says the same. -/
theorem Tracked.failed (h : Tracked A commands start p s) (i : Item) (e : ApplyError) {m : Memory}
    (hsame : SameTexts s.memory.board m.board) : Tracked A commands start (p.failed i e) { s with memory := m } where
  view := h.view
  board := hsame.recorded h.board
  length := by
    rw [filter_failed]
    exact h.length
  told := by
    unfold history appliedActions
    rw [filter_failed]
    exact h.told
  past := h.past
  stands := by
    unfold history
    rw [filter_failed]
    exact (A.same hsame).trans h.stands
  seen := by
    unfold history
    rw [filter_failed]
    exact h.seen

/-- An item is applied. What it was carried out on is the view, which shows no effect of commands since the last
    snapshot; so its effect replaces theirs. -/
theorem Tracked.applied (h : Tracked A commands start p s) (hc : commands[i.index]? = some i.command) {entity : String}
    (houtcomes : q.outcomes = p.outcomes ++ [⟨i.index, i.command.kind, .applied entity⟩])
    (hview : SameTexts p.view q.view) {m : Memory}
    (hstep : TextStep t.now p.view s.memory.board i.command.action m.board) :
    Tracked A commands start q { s with memory := m, epochs := s.epochs ++ [s.given] } := by
  have hhistory : history commands q.outcomes (s.epochs ++ [s.given]) =
      history commands p.outcomes s.epochs ++ [(i.command.action, s.given)] := by
    rw [houtcomes]
    exact history_concat h.length rfl hc s.given
  have hbefore : ∀ c ∈ A.concerned (history commands p.outcomes s.epochs), c.2 ≤ s.given := fun c hmem =>
    h.past c.2 (epoch_mem_of_mem_history (List.mem_filter.mp hmem).1)
  constructor
  case view => exact hview.recorded h.view
  case board => exact hstep.recorded h.view h.board
  case length =>
    rw [houtcomes, List.filter_append, List.length_append, h.length, List.length_append]
    rfl
  case told =>
    have haction : (commands[i.index]?).map (·.action) = some i.command.action := congrArg (Option.map (·.action)) hc
    dsimp only
    rw [hhistory, List.map_append, h.told, houtcomes]
    unfold appliedActions
    rw [List.filter_append, List.map_append]
    exact congrArg (_ ++ [·]) haction.symm
  case past =>
    intro epoch hmem
    rcases List.mem_append.mp hmem with hmem | hmem
    · exact h.past epoch hmem
    · exact (List.mem_singleton.mp hmem).le
  case stands =>
    dsimp only
    rw [hhistory, A.step hstep]
    cases heffect : i.command.action.effect? A.edit? A.deletes A.put with
    | none =>
      rw [A.concerned_concat_of_none heffect]
      exact h.stands
    | some f =>
      -- No command so far has a later epoch, so those not of this one are those before it.
      have hearlier : (A.concerned (history commands p.outcomes s.epochs)).filter (·.2 ≠ s.given) =
          (A.concerned (history commands p.outcomes s.epochs)).filter (·.2 < s.given) := by
        refine List.filter_congr fun c hmem => ?_
        have := hbefore c hmem
        rw [decide_eq_decide]
        omega
      rw [A.concerned_concat_of_some heffect, lasting_concat, A.replay_concat, heffect, h.seen]
      dsimp only
      exact congrArg (fun l => (A.replay start (lasting l)).bind f) hearlier.symm
  case seen =>
    dsimp only
    rw [hhistory, A.same hview, h.seen]
    cases heffect : i.command.action.effect? A.edit? A.deletes A.put with
    | none => rw [A.concerned_concat_of_none heffect]
    | some f =>
      rw [A.concerned_concat_of_some heffect, List.filter_append, List.filter_cons_of_neg, List.filter_nil, List.append_nil]
      simp

/-- A snapshot is given. -/
theorem Tracked.fetched (h : Tracked A commands start p s) :
    Tracked A commands start { p with view := s.memory.board } { s with asked := s.asked + 1, given := s.given + 1 } where
  view := h.board
  board := h.board
  length := h.length
  told := h.told
  past epoch hmem := (h.past epoch hmem).trans (Nat.le_succ s.given)
  stands := h.stands
  seen := by
    have hall : (A.concerned (history commands p.outcomes s.epochs)).filter (·.2 < s.given + 1) =
        A.concerned (history commands p.outcomes s.epochs) := by
      refine List.filter_eq_self.mpr fun c hmem => decide_eq_true ?_
      exact Nat.lt_succ_of_le (h.past c.2 (epoch_mem_of_mem_history (List.mem_filter.mp hmem).1))
    exact h.stands.trans (congrArg (fun l => A.replay start (lasting l)) hall.symm)

theorem Tracked.notFetched (h : Tracked A commands start p s) : Tracked A commands start p { s with asked := s.asked + 1 } :=
  ⟨h.view, h.board, h.length, h.told, h.past, h.stands, h.seen⟩

/-! ### Runs -/

theorem tracked_create (h : Tracked A commands start p s) (hc : commands[i.index]? = some i.command)
    (hcreates : i.command.createsNode = true) (cell : Spot) (order : List String) :
    Tracked A commands start ((create t p cell order i).run (Flaky.facility refused) s).1
      ((create t p cell order i).run (Flaky.facility refused) s).2 := by
  have hother : i.command.action.changesTexts = false := by
    unfold Command.createsNode at hcreates
    cases haction : i.command.action <;> rw [haction] at hcreates <;> first | rfl | cases hcreates
  unfold create
  cases i.command.action.creation t.catalog p.view with
  | error e => exact h.failed i e (.refl _)
  | ok c =>
    simp only [Session.run, Flaky.facility, Memory.execute]
    have hsame := sameTexts_execute (b := s.memory.board) (m := .addNode
      { c.template with place := (c.spot.getD cell).place 0 } c.layer order) rfl
    rcases heffect : s.memory.board.execute (.addNode { c.template with place := (c.spot.getD cell).place 0 } c.layer order) with
      ⟨board, e | r⟩
    · rw [heffect] at hsame
      exact h.failed i _ (m := ⟨board, _⟩) hsame
    · rw [heffect] at hsame
      obtain ⟨n, rfl⟩ := fits_execute (congrArg Effect.result heffect) rfl
      exact h.applied (q := p.addNode i c.ref n) hc rfl (.of_comments rfl rfl) (m := ⟨board, _⟩) (.kept hother hsame)

theorem tracked_createAll (h : Tracked A commands start p s) {items : List Item}
    (hitems : ∀ i ∈ items, commands[i.index]? = some i.command ∧ i.command.createsNode = true) (origin : Spot) (n : Nat) :
    Tracked A commands start ((createAll t origin n p items).run (Flaky.facility refused) s).1
      ((createAll t origin n p items).run (Flaky.facility refused) s).2 :=
  keeps_createAll (I := fun x => Tracked A commands start x.1 x.2) origin items n
    (fun _ _ i hi _ _ h => tracked_create h (hitems i hi).1 (hitems i hi).2 _ _) h

theorem tracked_perform (h : Tracked A commands start p s) (hc : commands[i.index]? = some i.command)
    (hcreate : i.command.action.createsText = false) :
    Tracked A commands start ((perform t p i).run (Flaky.facility refused) s).1
      ((perform t p i).run (Flaky.facility refused) s).2 := by
  unfold perform
  cases hm : i.command.action.mutation p.refs p.view t.now with
  | error e => exact h.failed i e (.refl _)
  | ok m =>
    simp only [Session.run, Flaky.facility, Memory.execute]
    rcases heffect : s.memory.board.execute m with ⟨board, e | r⟩
    · have hsame := sameTexts_of_error (congrArg Effect.result heffect)
      rw [heffect] at hsame
      exact h.failed i _ (m := ⟨board, _⟩) hsame
    · have hstep := textStep h.view hcreate hm (congrArg Effect.result heffect)
      rw [heffect] at hstep
      exact h.applied (q := p.applied i r.id) hc rfl (.refl _) (m := ⟨board, _⟩) hstep

theorem tracked_refresh (refused : Nat → Option Refusal) (h : Tracked A commands start p s) (i : Item) :
    match (refresh p i).run (Flaky.facility refused) s with
    | (.ok p', s') => Tracked A commands start p' s'
    | (.error _, s') => Tracked A commands start p s' := by
  simp only [refresh, Session.run, Flaky.facility]
  cases refused s.asked with
  | none => exact h.fetched
  | some e =>
    dsimp only
    cases i.command.action <;> exact h.notFetched

theorem tracked_carryOut (h : Tracked A commands start p s) (hc : commands[i.index]? = some i.command)
    (hcreate : i.command.action.createsText = false) (outdated : Bool) :
    Tracked A commands start ((carryOut t outdated p i).run (Flaky.facility refused) s).1
      ((carryOut t outdated p i).run (Flaky.facility refused) s).2 := by
  unfold carryOut
  split
  · rw [Session.run_bind]
    have hrefresh := tracked_refresh refused h i
    rcases hrun : (refresh p i).run (Flaky.facility refused) s with ⟨e | p', s'⟩
    · rw [hrun] at hrefresh
      exact hrefresh.failed i e (.refl _)
    · rw [hrun] at hrefresh
      exact tracked_perform hrefresh hc hcreate
  · exact tracked_perform h hc hcreate

theorem tracked_carryOutAll (h : Tracked A commands start p s) {items : List Item}
    (hitems : ∀ i ∈ items, commands[i.index]? = some i.command ∧ i.command.action.createsText = false) (outdated : Bool) :
    Tracked A commands start ((carryOutAll t outdated p items).run (Flaky.facility refused) s).1
      ((carryOutAll t outdated p items).run (Flaky.facility refused) s).2 :=
  keeps_carryOutAll (Flaky.settled refused) (I := fun x => Tracked A commands start x.1 x.2) items
    (fun outdated i hi _ _ h => tracked_carryOut h (hitems i hi).1 (hitems i hi).2 outdated) outdated h

theorem tracked_begin (A : Aspect α ε t.now) (commands : List Command) {b : Board} (hb : b.Recorded) :
    Tracked A commands (A.look b) (.begin b) (.ofBoard b) :=
  ⟨hb, hb, rfl, rfl, fun _ h => (List.not_mem_nil h).elim, rfl, rfl⟩

theorem tracked_apply (A : Aspect α ε t.now) {b : Board} (hb : b.Recorded)
    (hcreate : ∀ c ∈ commands, c.action.createsText = false) (refused : Nat → Option Refusal) :
    let run := (apply t b commands).run (Flaky.facility refused) (.ofBoard b)
    ∃ p, p.outcomes = run.1.1.outcomes ∧ Tracked A commands (A.look b) p run.2 := by
  have hitems : ∀ i ∈ items commands, commands[i.index]? = some i.command ∧ i.command.action.createsText = false :=
    fun i hi => ⟨mem_items.mp hi, hcreate _ (List.mem_of_getElem? (mem_items.mp hi))⟩
  unfold apply
  rw [List.partition_eq_filter_filter]
  simp only [Session.run_bind]
  refine ⟨_, rfl, tracked_carryOutAll (tracked_createAll (tracked_begin A commands hb) (fun i hi => ?_) _ 0)
    (fun i hi => ?_) false⟩
  · obtain ⟨hi, hcreates⟩ := List.mem_filter.mp hi
    exact ⟨(hitems i hi).1, hcreates⟩
  · exact hitems i (List.mem_filter.mp hi).1

/-- A variable or comment is at the end what the commands with a lasting effect make of it. -/
theorem look_apply (A : Aspect α ε t.now) {b : Board} (hb : b.Recorded)
    (hcreate : ∀ c ∈ commands, c.action.createsText = false) (refused : Nat → Option Refusal) :
    let run := (apply t b commands).run (Flaky.facility refused) (.ofBoard b)
    A.look run.2.memory.board =
      A.replay (A.look b) (lasting (A.concerned (history commands run.1.1.outcomes run.2.epochs))) := by
  intro run
  obtain ⟨p, hp, h⟩ := tracked_apply A hb hcreate refused
  rw [← hp]
  exact h.stands

/-- No update is lost if a snapshot was given between any two applied commands on the variable or comment. -/
theorem look_apply_of_nodup (A : Aspect α ε t.now) {b : Board} (hb : b.Recorded)
    (hcreate : ∀ c ∈ commands, c.action.createsText = false) (refused : Nat → Option Refusal) :
    let run := (apply t b commands).run (Flaky.facility refused) (.ofBoard b)
    let applied := history commands run.1.1.outcomes run.2.epochs
    ((A.concerned applied).map (·.2)).Nodup →
      A.look run.2.memory.board =
        if applied.any (A.deletes ·.1) then none
        else (A.look b).map fun v => (applied.filterMap (A.edit? ·.1)).foldl (fun v e => A.put e v) v := by
  intro run applied hepochs
  refine (look_apply A hb hcreate refused).trans ?_
  rw [lasting_eq_self hepochs, A.replay_concerned, A.replay_eq]

/-! ### What a batch makes of variables and comments -/

/-- Variables and comments at the end are those of the start, edited and deleted by the applied commands with a
    lasting effect; what several of them set is as the last of them sets it. -/
structure FollowsEdits (now : UInt64) (b last : Board) (applied : List (Action × Nat)) : Prop where
  vars (x : String) : last.vars.get? x =
    let edits := lasting ((Aspect.ofVariable x now).concerned applied)
    if edits.any (·.1.deletesVariable x) then none
    else (b.vars.get? x).map (VariableEdit.merge (edits.filterMap (·.1.variableEdit? x))).apply
  comments (x : String) : last.commentText? x =
    let edits := lasting ((Aspect.ofComment x now).concerned applied)
    if edits.any (·.1.deletesComment x) then none
    else (b.comments.get? x).map fun c => ((CommentEdit.merge (edits.filterMap (·.1.commentEdit? x))).apply now c).text

/-- Whatever snapshots are refused, a batch that makes no variable and no comment leaves them as its applied commands
    with a lasting effect say. -/
theorem apply_follows_edits (t : Occasion) (commands : List Command) {b : Board} (hb : b.Recorded)
    (hcreate : ∀ c ∈ commands, c.action.createsText = false) (refused : Nat → Option Refusal) :
    let run := (apply t b commands).run (Flaky.facility refused) (.ofBoard b)
    let applied := history commands run.1.1.outcomes run.2.epochs
    applied.map (some ·.1) = appliedActions commands run.1.1.outcomes ∧ FollowsEdits t.now b run.2.memory.board applied := by
  intro run applied
  constructor
  · obtain ⟨p, hp, h⟩ := tracked_apply (Aspect.ofVariable "" t.now) hb hcreate refused
    have htold := h.told
    rwa [hp] at htold
  constructor
  case vars =>
    intro x
    refine (look_apply (Aspect.ofVariable x t.now) hb hcreate refused).trans ((Aspect.replay_eq ..).trans ?_)
    simp only [Aspect.ofVariable, VariableEdit.foldl_apply]
    rfl
  case comments =>
    intro x
    refine (look_apply (Aspect.ofComment x t.now) hb hcreate refused).trans ((Aspect.replay_eq ..).trans ?_)
    simp only [Aspect.ofComment, Board.commentText?, Option.map_map, Function.comp_def, CommentEdit.foldl_apply]
    rfl

/-- Two edits of a variable with no snapshot in between: what the first has set is lost. -/
theorem apply_follows_edits_outdated :
    let v : Variable := ⟨"v", "count", .integer, .single, some "old", none, false, false, true⟩
    let b : Board := { Board.blank "b" "board" with vars := .ofList [("v", v)] }
    let t : Setting := ⟨[], .standard, .zero, 0⟩
    let commands : List Command := [⟨.updateVariable "v" ⟨some "total", none, none⟩, none⟩,
      ⟨.updateVariable "v" ⟨none, none, some "new"⟩, none⟩]
    let refused : Nat → Option Refusal := fun _ => some ⟨.unavailable, "offline"⟩
    let run := (apply t b commands).run (Flaky.facility refused) (.ofBoard b)
    b.Recorded ∧ (∀ c ∈ commands, c.action.createsText = false) ∧
    run.1.1.outcomes.map (·.isApplied) = [true, true] ∧
    (run.2.memory.board.vars.get? "v").map (fun v => (v.name, v.description)) = some ("count", some "new") ∧
    FollowsEdits t.now b run.2.memory.board (history commands run.1.1.outcomes run.2.epochs) := by
  intro v b t commands refused run
  have hb : b.Recorded := by
    refine ⟨fun k w hw => ?_, fun k c hc => (by cases hc), by decide, rfl⟩
    obtain ⟨rfl, rfl⟩ := Prod.mk.inj (List.mem_singleton.mp (KeyMap.mem_of_get?_ofList hw))
    rfl
  have hcreate : ∀ c ∈ commands, c.action.createsText = false := by decide
  exact ⟨hb, hcreate, by decide +kernel, by decide +kernel, (apply_follows_edits t commands hb hcreate refused).2⟩

end Batch

end Workboard
