import Workboard.Proofs.PinOrders

/-! Skipping a fetch makes no difference.

While nothing but the making of nodes has changed the board, a batch goes on with the view that it has. The
view lacks the copies of new nodes in their layers and counts fewer changes, but nothing that addresses an
action can tell it from the board (`Board.Alike`). So a batch that fetches the board before every item
comes to the same report, notices, journal and board (`run_apply_eq_run_applyFetching`). -/

namespace Workboard

namespace Board

variable {v w b : Board}

/-- Two views on which every reference means the same. -/
structure Alike (v w : Board) : Prop where
  left : v.Keyed
  right : w.Keyed
  node? : ∀ x, v.node? x = w.node? x
  layers : ∀ layer, v.layers.contains layer = w.layers.contains layer
  vars : v.vars = w.vars
  comments : v.comments = w.comments

theorem Alike.refl (h : b.Keyed) : Alike b b := ⟨h, h, fun _ => rfl, fun _ => rfl, rfl, rfl⟩

theorem Alike.mem_nodeIds (h : Alike v w) {x : String} : x ∈ v.nodeIds ↔ x ∈ w.nodeIds := by
  rw [h.left.mem_nodeIds_iff, h.right.mem_nodeIds_iff, ← node?_isSome_iff, ← node?_isSome_iff, h.node?]

theorem Alike.viewLayer (h : Alike v w) (layer : String) : discard (v.viewLayer layer) = discard (w.viewLayer layer) := by
  have hc := h.layers layer
  unfold KeyMap.contains at hc
  unfold Board.viewLayer layer?
  cases hv : v.layers.get? layer <;> cases hw : w.layers.get? layer <;> rw [hv, hw] at hc <;> first | rfl | cases hc

theorem Alike.viewLayer? (h : Alike v w) (layer : Option String) : v.viewLayer? layer = w.viewLayer? layer := by
  cases layer with
  | none => rfl
  | some layer => exact h.viewLayer layer

theorem Alike.centroid (h : Alike v w) (ids : List String) : v.centroid ids = w.centroid ids := by
  unfold Board.centroid
  rw [funext h.node?]

end Board

open Board (Alike)

namespace References

variable {v w : Board} {s : References}

theorem known_congr (h : Alike v w) : s.known v = s.known w := by
  unfold known
  congr 1
  refine KeySet.ext fun k => Bool.eq_iff_iff.mpr ?_
  rw [KeySet.contains_ofList, KeySet.contains_ofList, List.mem_append, List.mem_append]
  exact or_congr_right h.mem_nodeIds

theorem node_congr (h : Alike v w) : s.node v = s.node w := by
  funext ref
  unfold node
  simp only [h.node?, known_congr h]

theorem ids_congr (h : Alike v w) : s.ids v = s.ids w := by
  funext refs
  unfold ids
  rw [node_congr h]

theorem wire_congr (h : Alike v w) : s.wire v = s.wire w := by
  funext wire
  unfold References.wire
  rw [node_congr h]

end References

/-- An action stands for the same mutation on both views, or fails with the same error. -/
theorem Action.mutation_congr {v w : Board} (h : Alike v w) (a : Action) (s : References) (now : UInt64) :
    a.mutation s v now = a.mutation s w now := by
  have hvars : v.viewVariable = w.viewVariable := by
    funext id
    unfold Board.viewVariable
    rw [h.vars]
  have hcomments : v.viewComment = w.viewComment := by
    funext id
    unfold Board.viewComment
    rw [h.comments]
  cases a <;>
    simp only [mutation, References.node_congr h, References.wire_congr h, References.ids_congr h, h.viewLayer,
      h.viewLayer?, h.centroid, hvars, hcomments]

/-! ### Views of new nodes -/

theorem Board.Keyed.insertNode {v : Board} (h : v.Keyed) (n : Node) : ({ v with nodes := v.nodes.insert n.id n } : Board).Keyed :=
  ⟨h.nodes.insert n, h.mirrors⟩

/-- A view takes in a node that is stored on the board. -/
theorem Board.Alike.storeNode {v b : Board} (h : Alike v b) (n : Node) :
    Alike { v with nodes := v.nodes.insert n.id n } (b.storeNode n).countChange where
  left := h.left.insertNode n
  right := ⟨(h.right.storeNode n).nodes, (h.right.storeNode n).mirrors⟩
  node? x := by
    have hview : SameRest v { v with nodes := v.nodes.insert n.id n } := ⟨rfl, rfl, rfl, rfl, rfl, rfl, rfl⟩
    show Board.node? _ x = (b.storeNode n).node? x
    by_cases hx : n.id = x
    · subst hx
      rw [node?_of_copy?_none (b := b.storeNode n) (n := n) (by rw [copy?_storeNode_none, if_pos rfl])]
      refine node?_of_copy?_none ?_
      show (v.nodes.insert n.id n).get? n.id = some n
      rw [KeyMap.get?_insert, if_pos rfl]
    · rw [(sameRest_storeNode b n).node?_congr (copy?_storeNode_of_ne hx), ← h.node?]
      refine hview.node?_congr fun shelf => ?_
      cases shelf with
      | none =>
        show (v.nodes.insert n.id n).get? x = v.nodes.get? x
        rw [KeyMap.get?_insert, if_neg hx]
      | some layer => rfl
  layers layer := (h.layers layer).trans ((sameRest_storeNode b n).contains layer).symm
  vars := h.vars
  comments := h.comments

namespace Batch

variable {t : Occasion} {s : Progress} {m : Memory}

/-- While nodes are made, the view stays like the board. -/
theorem alike_createAll (start : Spot) (items : List Item) (k : Nat) (h : Alike s.view m.board) :
    Alike ((createAll t start k s items).run Memory.facility m).1.view
      ((createAll t start k s items).run Memory.facility m).2.board := by
  refine keeps_createAll (I := fun x : Progress × Memory => Alike x.1.view x.2.board) start items k (fun k _ i _ s m h => ?_) h
  rcases run_create_cases t s (t.grid.cell start k) (t.pinOrder k) i m with ⟨e, hrun⟩ | ⟨c, n, -, -, hrun⟩
  · rw [hrun]
    exact h
  · rw [hrun]
    exact h.storeNode n

/-! ### Fetching before every item -/

/-- Carries out an item on a view that is fetched for it. -/
def carryOutFetching (t : Occasion) (s : Progress) (i : Item) : Session Progress := do
  match ← refresh s i with
  | .ok s => perform t s i
  | .error e => return s.failed i e

/-- Carries out items in order, each on a view of its own. -/
def carryOutAllFetching (t : Occasion) (s : Progress) : List Item → Session Progress
  | [] => .done s
  | i :: r => do
    if !s.outcomes.isEmpty then .settle t.pauses .betweenCommands
    let s ← carryOutFetching t s i
    if s.lastApplied then settleConnection t i
    carryOutAllFetching t s r

/-- Applies a batch, and fetches the board before every command that makes no node. -/
def applyFetching (t : Occasion) (b : Board) (commands : List Command) : Session (Report × List Notice) := do
  let (creations, others) := (items commands).partition (·.command.createsNode)
  let s ← createAll t (t.grid.start b) 0 (.begin b) creations
  let s ← carryOutAllFetching t s others
  return (⟨s.outcomes, s.created, true⟩, s.notices)

/-- A batch that takes its view for outdated from the start fetches before every item. -/
theorem carryOutAllFetching_eq (t : Occasion) (items : List Item) (s : Progress) :
    carryOutAllFetching t s items = carryOutAll t true s items := by
  induction items generalizing s with
  | nil => rfl
  | cons i r ih =>
    have hneeds : needsFresh true i.command.action = true := by
      unfold needsFresh
      split <;> rfl
    have hone : carryOutFetching t s i = carryOut t true s i := by
      unfold carryOut
      rw [hneeds]
      rfl
    unfold carryOutAllFetching carryOutAll
    simp only [hone, ih]

/-! ### The same run -/

section
variable {i : Item} {w : Board}

/-- On a view that is alike an item is carried out in the same way. -/
theorem run_perform_view {σ : Type} (h : Alike s.view w) (f : Facility σ) (x : σ) :
    (perform t { s with view := w } i).run f x =
      ({ ((perform t s i).run f x).1 with view := w }, ((perform t s i).run f x).2) := by
  unfold perform
  rw [Action.mutation_congr h]
  cases i.command.action.mutation s.refs w t.now with
  | error e => rfl
  | ok mutation =>
    simp only [Session.run]
    rcases (f.execute mutation x).1 with e | r <;> rfl

/-- An item that fails leaves view and board as they are. -/
theorem alike_perform (h : Alike s.view m.board) (hfailed : ((perform t s i).run Memory.facility m).1.lastApplied = false) :
    Alike ((perform t s i).run Memory.facility m).1.view ((perform t s i).run Memory.facility m).2.board := by
  rcases run_perform_cases t s i m with ⟨e, -, hrun⟩ | ⟨mutation, -, ⟨e, he, hrun⟩ | ⟨r, -, hrun⟩⟩
  · rw [hrun]
    exact h
  · rw [hrun, h.right.board_of_error he]
    exact h
  · rw [hrun, lastApplied_applied] at hfailed
    cases hfailed

theorem run_carryOut_fresh {outdated : Bool} (hneeds : needsFresh outdated i.command.action = true) :
    (carryOut t outdated s i).run Memory.facility m = (perform t { s with view := m.board } i).run Memory.facility m := by
  unfold carryOut
  rw [if_pos hneeds, Session.run_bind, run_refresh]

theorem run_carryOut_outdated :
    (carryOut t true s i).run Memory.facility m = (perform t { s with view := m.board } i).run Memory.facility m := by
  refine run_carryOut_fresh ?_
  unfold needsFresh
  split <;> rfl

/-- A view that is alike the board as long as nothing was applied does instead of fetched ones. -/
theorem run_carryOutAll_view (items : List Item) (outdated : Bool) (h : outdated = false → Alike s.view m.board) (v : Board) :
    ∃ w, (carryOutAll t true { s with view := v } items).run Memory.facility m =
      ({ ((carryOutAll t outdated s items).run Memory.facility m).1 with view := w },
        ((carryOutAll t outdated s items).run Memory.facility m).2) := by
  induction items generalizing outdated s m v with
  | nil => exact ⟨v, rfl⟩
  | cons i r ih =>
    rw [run_carryOutAll_cons Memory.settled, run_carryOutAll_cons Memory.settled, run_carryOut_outdated, Bool.true_or]
    cases hneeds : needsFresh outdated i.command.action with
    | true =>
      -- Both runs fetch; from here on they differ in nothing.
      rw [run_carryOut_fresh hneeds]
      refine ih _ (fun hnot => ?_) _
      obtain ⟨houtdated, hfailed⟩ := Bool.or_eq_false_iff.mp hnot
      exact alike_perform (s := { s with view := m.board }) (Alike.refl (h houtdated).right) hfailed
    | false =>
      have houtdated : outdated = false := by
        unfold needsFresh at hneeds
        split at hneeds
        · cases hneeds
        · exact hneeds
      have halike := h houtdated
      have hkept : (carryOut t outdated s i).run Memory.facility m = (perform t s i).run Memory.facility m := by
        unfold carryOut
        rw [hneeds]
        rfl
      rw [hkept, run_perform_view halike]
      refine ih _ (fun hnot => ?_) _
      exact alike_perform halike (Bool.or_eq_false_iff.mp hnot).2

end

theorem run_applyFetching (t : Occasion) (commands : List Command) {m : Memory} (h : m.board.Keyed) :
    (apply t m.board commands).run Memory.facility m = (applyFetching t m.board commands).run Memory.facility m := by
  unfold apply applyFetching
  simp only [carryOutAllFetching_eq, Session.run_bind]
  -- The views that the two second rounds end with may differ, but no result shows a view.
  have hview := alike_createAll (t := t) (s := .begin m.board) (t.grid.start m.board)
    ((items commands).partition (·.command.createsNode)).1 0 (Alike.refl h)
  obtain ⟨w, hw⟩ := run_carryOutAll_view (t := t) ((items commands).partition (·.command.createsNode)).2 false
    (fun _ => hview) _
  rw [hw]

/-- Fetching the board before every command that makes no node changes nothing: report, notices, journal and board are those
    of a batch that fetches it only when it may have become outdated. So it is for every order of the pins of new nodes:
    whatever the one batch can come to the other can. If they have different orders, they still make the same nodes under
    the same aliases, and the commands that make them come to the same. -/
theorem run_apply_eq_run_applyFetching (t : Setting) (orders : Nat → List String) (commands : List Command) {m : Memory}
    (h : m.board.Keyed) :
    (apply ⟨t, orders⟩ m.board commands).run Memory.facility m =
      (applyFetching ⟨t, orders⟩ m.board commands).run Memory.facility m ∧
    ∀ orders' : Nat → List String,
      let report := ((apply ⟨t, orders⟩ m.board commands).run Memory.facility m).1.1
      let report' := ((applyFetching ⟨t, orders'⟩ m.board commands).run Memory.facility m).1.1
      report.created = report'.created ∧ ∀ (i : Nat) (c : Command), commands[i]? = some c → c.createsNode = true →
        report.outcome? i = report'.outcome? i := by
  refine ⟨run_applyFetching ⟨t, orders⟩ commands h, fun orders' => ?_⟩
  rw [← run_applyFetching ⟨t, orders'⟩ commands h]
  exact creations_in_any_order t orders orders' commands m

/-- Of three commands one makes a node in a layer, one fails, and one removes the new node. The board is never
    fetched, or it is fetched twice; the results are the same. -/
theorem run_apply_never_fetching :
    let board := ((Board.blank "b" "board").execute (.upsertLayer ⟨"", "Group", none, none, ∅, ∅, .origin, none⟩ [])).board
    let commands : List Command := [⟨.removeNode "missing", none⟩, ⟨.removeNode "a", none⟩,
      ⟨.addPlaceholder ⟨"Step", some "a", none, none, some "layer-1"⟩, none⟩]
    let t : Setting := ⟨[], .standard, .zero, 0⟩
    let calls := fun x : Session (Report × List Notice) =>
      (x.run Memory.facility.traced ([], .ofBoard board)).2.1.reverse.map Call.label
    board.Keyed ∧
    calls (apply t board commands) = ["AddNode", "BetweenCommands", "BetweenCommands", "RemoveNode"] ∧
    calls (applyFetching t board commands) =
      ["AddNode", "BetweenCommands", "snapshot", "BetweenCommands", "snapshot", "RemoveNode"] ∧
    (apply t board commands).run Memory.facility (.ofBoard board) =
      (applyFetching t board commands).run Memory.facility (.ofBoard board) := by
  intro board commands t calls
  have hkeyed : board.Keyed := by decide
  refine ⟨hkeyed, by decide, by decide, ?_⟩
  exact (run_apply_eq_run_applyFetching t (fun _ => []) commands (m := .ofBoard board) hkeyed).1

end Batch

end Workboard
