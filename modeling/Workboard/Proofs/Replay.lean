import Workboard.Proofs.NodeIds
import Workboard.Proofs.Run

/-! A batch applied in memory can be replayed.

The memory's journal, carried out on the board that the batch began with, leads to the memory's board, and each of its
mutations answers with what the report says of the command behind it (`Batch.apply_replays`). This holds of a batch at
every point (`Batch.Replays`): an item that is applied adds one mutation and one outcome, and any other changes neither
board nor journal. -/

namespace Workboard

namespace Board

/-- Carries mutations out one after the other, up to the first that is refused. -/
def replay (b : Board) : List Mutation → Except BoardError (List Receipt × Board)
  | [] => .ok ([], b)
  | m :: r => do
    let receipt ← (b.execute m).result
    let (receipts, last) ← (b.execute m).board.replay r
    return (receipt :: receipts, last)

variable {b last : Board} {m : Mutation} {l : List Mutation} {receipt : Receipt} {receipts : List Receipt}

theorem replay_concat (h : b.replay l = .ok (receipts, last)) (hm : (last.execute m).result = .ok receipt) :
    b.replay (l ++ [m]) = .ok (receipts ++ [receipt], (last.execute m).board) := by
  induction l generalizing b receipts with
  | nil =>
    cases h
    rw [List.nil_append, replay, hm]
    rfl
  | cons m' l ih =>
    obtain ⟨first, hfirst, h⟩ := bind_eq_ok h
    obtain ⟨⟨others, last'⟩, hrest, h⟩ := bind_eq_ok h
    cases h
    rw [List.cons_append, replay, hfirst]
    show (do let (receipts, last) ← replay _ (l ++ [m]); return (first :: receipts, last)) = _
    rw [ih hrest]
    rfl

theorem length_of_replay (h : b.replay l = .ok (receipts, last)) : receipts.length = l.length := by
  induction l generalizing b receipts with
  | nil =>
    cases h
    rfl
  | cons m l ih =>
    obtain ⟨first, -, h⟩ := bind_eq_ok h
    obtain ⟨⟨others, last'⟩, hrest, h⟩ := bind_eq_ok h
    cases h
    rw [List.length_cons, ih hrest, List.length_cons]

/-- Each mutation of a replay is counted once in the version. -/
theorem patch_of_replay (h : b.replay l = .ok (receipts, last)) (hsize : b.version.patch.toNat + l.length < UInt32.size) :
    last.version.patch.toNat = b.version.patch.toNat + l.length := by
  induction l generalizing b receipts with
  | nil =>
    cases h
    rfl
  | cons m l ih =>
    obtain ⟨first, hfirst, h⟩ := bind_eq_ok h
    obtain ⟨⟨others, last'⟩, hrest, h⟩ := bind_eq_ok h
    cases h
    have hone : (b.execute m).board.version.patch.toNat = b.version.patch.toNat + 1 := by
      rw [(execute_of_ok hfirst).2, countChange, (sameHead_perform b m).version, UInt32.toNat_add]
      have hsize' : UInt32.size = 4294967296 := rfl
      have hone : (1 : UInt32).toNat = 1 := rfl
      rw [List.length_cons] at hsize
      omega
    rw [List.length_cons] at hsize ⊢
    rw [ih hrest (by omega), hone]
    omega

end Board

namespace Batch

variable {t : Occasion} {b : Board} {s : Progress} {m : Memory} {i : Item}

/-- The journal leads from one board to the other, by way of what was reported. -/
structure Replays (b : Board) (s : Progress) (m : Memory) : Prop where
  keyed : m.board.Keyed
  replay : ∃ receipts, b.replay m.journal = .ok (receipts, m.board) ∧
    s.outcomes.filterMap (·.entity?) = receipts.map (·.id)

/-! ### Items -/

theorem Replays.failed (h : Replays b s m) (i : Item) (e : ApplyError) : Replays b (s.failed i e) m := by
  obtain ⟨receipts, hreplay, hids⟩ := h.replay
  refine ⟨h.keyed, receipts, hreplay, ?_⟩
  rw [← hids]
  simp [Progress.failed, Outcome.entity?]

/-- A view is not looked at. -/
theorem Replays.of_view (h : Replays b s m) (view : Board) : Replays b { s with view } m := ⟨h.keyed, h.replay⟩

/-- A mutation that the board accepts, and the outcome that tells its receipt. -/
theorem Replays.executed (h : Replays b s m) {mutation : Mutation} {r : Receipt}
    (hr : (m.board.execute mutation).result = .ok r) (hproper : mutation.Proper) {s' : Progress} {o : Outcome}
    (hs' : s'.outcomes = s.outcomes ++ [o]) (ho : o.entity? = some r.id) :
    Replays b s' ⟨(m.board.execute mutation).board, m.journal ++ [mutation]⟩ := by
  obtain ⟨receipts, hreplay, hids⟩ := h.replay
  refine ⟨h.keyed.execute hproper, receipts ++ [r], Board.replay_concat hreplay hr, ?_⟩
  rw [hs', List.filterMap_append, hids, List.map_append]
  simp [ho]

theorem replays_create (h : Replays b s m) (t : Occasion) (cell : Spot) (order : List String) (i : Item) :
    Replays b ((create t s cell order i).run Memory.facility m).1 ((create t s cell order i).run Memory.facility m).2 := by
  rcases run_create_executes t s cell order i m with ⟨e, hrun⟩ | ⟨c, n, -, hresult, hrun⟩
  · rw [hrun]
    exact h.failed i e
  · rw [hrun]
    exact h.executed hresult trivial rfl rfl

theorem replays_perform (h : Replays b s m) (t : Occasion) (i : Item) :
    Replays b ((perform t s i).run Memory.facility m).1 ((perform t s i).run Memory.facility m).2 := by
  rcases run_perform_cases t s i m with ⟨e, -, hrun⟩ | ⟨mutation, hm, ⟨e, he, hrun⟩ | ⟨r, hr, hrun⟩⟩
  · rw [hrun]
    exact h.failed i e
  · rw [hrun, h.keyed.board_of_error he]
    exact h.failed i _
  · rw [hrun]
    exact h.executed hr (Action.proper_mutation hm).1 rfl rfl

theorem replays_carryOut (h : Replays b s m) (t : Occasion) (outdated : Bool) (i : Item) :
    Replays b ((carryOut t outdated s i).run Memory.facility m).1 ((carryOut t outdated s i).run Memory.facility m).2 := by
  unfold carryOut
  split
  · rw [Session.run_bind, run_refresh]
    exact replays_perform (h.of_view m.board) t i
  · exact replays_perform h t i

/-! ### Batches -/

theorem replays_createAll (h : Replays b s m) (t : Occasion) (start : Spot) (items : List Item) (n : Nat) :
    Replays b ((createAll t start n s items).run Memory.facility m).1
      ((createAll t start n s items).run Memory.facility m).2 :=
  keeps_createAll (I := fun x => Replays b x.1 x.2) start items n (fun _ _ i _ _ _ h => replays_create h t _ _ i) h

theorem replays_carryOutAll (h : Replays b s m) (t : Occasion) (items : List Item) (outdated : Bool) :
    Replays b ((carryOutAll t outdated s items).run Memory.facility m).1
      ((carryOutAll t outdated s items).run Memory.facility m).2 :=
  keeps_carryOutAll Memory.settled (I := fun x => Replays b x.1 x.2) items
    (fun outdated i _ _ _ h => replays_carryOut h t outdated i) outdated h

theorem map_entity?_filter (l : List Outcome) :
    (l.filter (·.isApplied)).map (·.entity?) = (l.filterMap (·.entity?)).map some := by
  induction l with
  | nil => rfl
  | cons o l ih =>
    obtain ⟨index, kind, id | reason⟩ := o
    · exact congrArg (some id :: ·) ih
    · exact ih

/-- Replaying the journal of a batch on the board that it began with is successful at every step and leads to the board
    behind the batch. There is one entry for each outcome that is applied, in the same order, and the outcome tells the id
    of what the entry made or changed. Each is counted in the version. -/
theorem apply_replays (t : Occasion) {b : Board} (hb : b.Keyed) (commands : List Command) :
    ∃ report notices last journal receipts,
      (apply t b commands).run Memory.facility (.ofBoard b) = ((report, notices), ⟨last, journal⟩) ∧
      b.replay journal = .ok (receipts, last) ∧
      journal.length = report.applied ∧
      (report.outcomes.filter (·.isApplied)).map (·.entity?) = receipts.map (some ·.id) ∧
      (b.version.patch.toNat + report.applied < UInt32.size →
        last.version.patch.toNat = b.version.patch.toNat + report.applied) := by
  have hbegin : Replays b (.begin b) (.ofBoard b) := ⟨hb, [], rfl, rfl⟩
  unfold apply
  simp only [Session.run_bind]
  have hall := replays_carryOutAll (replays_createAll hbegin t (t.grid.start b)
    ((items commands).partition (·.command.createsNode)).1 0) t ((items commands).partition (·.command.createsNode)).2 false
  generalize (carryOutAll t false _ _).run Memory.facility _ = result at hall ⊢
  obtain ⟨s, last, journal⟩ := result
  obtain ⟨-, receipts, hreplay, hids⟩ := hall
  have happlied : journal.length = (⟨s.outcomes, s.created, true⟩ : Report).applied := by
    have hlength := congrArg List.length (map_entity?_filter s.outcomes)
    rw [List.length_map, List.length_map, hids, List.length_map, Board.length_of_replay hreplay] at hlength
    rw [Report.applied, List.countP_eq_length_filter, hlength]
  refine ⟨_, _, last, journal, receipts, rfl, hreplay, happlied, ?_, fun hsize => ?_⟩
  · rw [map_entity?_filter, hids, List.map_map]
    rfl
  · rw [← happlied] at hsize ⊢
    exact Board.patch_of_replay hreplay hsize

/-- A step is made and removed again, and a node is asked for that is not there. -/
def makeAndRemove : List Command :=
  [⟨.removeNode "missing", none⟩, ⟨.removeNode "a", none⟩, ⟨.addPlaceholder ⟨"Step", some "a", none, none, none⟩, none⟩]

/-- The journal has the making of the step and its removal. -/
theorem apply_replays_makeAndRemove :
    let t : Setting := ⟨[], .standard, .zero, 0⟩
    let board := Board.blank "b" "board"
    board.Keyed ∧ ∃ last journal receipts,
      ((apply t board makeAndRemove).run Memory.facility (.ofBoard board)).2 = ⟨last, journal⟩ ∧
      board.replay journal = .ok (receipts, last) ∧ journal.length = 2 ∧
      receipts.map (some ·.id) = [some "node-1", some "node-1"] ∧ last.version.patch.toNat = 2 := by
  intro t board
  have hkeyed : board.Keyed := by decide
  obtain ⟨report, notices, last, journal, receipts, hrun, hreplay, hlength, hids, hpatch⟩ :=
    apply_replays t hkeyed makeAndRemove
  have hreport : (report.outcomes.filter (·.isApplied)).map (·.entity?) = [some "node-1", some "node-1"] ∧
      report.applied = 2 := by
    have hrun := congrArg (·.1.1) hrun
    dsimp only at hrun
    rw [← hrun]
    decide
  rw [hreport.2] at hlength hpatch
  refine ⟨hkeyed, last, journal, receipts, by rw [hrun], hreplay, hlength, hids.symm.trans hreport.1, ?_⟩
  rw [hpatch (by decide)]
  rfl

end Batch

end Workboard
