import Workboard.Apply.Memory
import Workboard.Proofs.Account
import Workboard.Proofs.Refusal

/-! How batches run.

A run of a session goes part by part (`run_bind`). With a facility that changes nothing while it is waited
for, an item of a batch is a step of its own (`run_carryOutAll_cons`), and what every item keeps a round keeps
(`keeps_createAll`, `keeps_carryOutAll`). With a memory, making a node and carrying out an item end in one of a few
ways (`run_create_cases`, `run_perform_cases`). -/

namespace Workboard

variable {α β σ : Type}

/-- Waiting changes nothing. -/
def Facility.Settled (f : Facility σ) : Prop := ∀ point s, (f.fence point s).2 = s

namespace Session

variable {f : Facility σ}

theorem run_bind (x : Session α) (k : α → Session β) (f : Facility σ) (s : σ) :
    (x >>= k).run f s = (k (x.run f s).1).run f (x.run f s).2 := by
  show (x.bind k).run f s = _
  induction x generalizing s with
  | done a => rfl
  | execute m next ih => exact ih _ _
  | snapshot next ih => exact ih _ _
  | fence point next ih => exact ih _ _
  | wait t next ih => exact ih s

theorem run_settle (hf : f.Settled) (pauses : Pauses) (point : SettlePoint) (s : σ) :
    (settle pauses point).run f s = ((), s) := by
  have hrun : (settle pauses point).run f s =
      (if (f.fence point s).1 || pauses.time point = 0 then done ()
        else .wait (pauses.time point) (.done ()) : Session Unit).run f (f.fence point s).2 := rfl
  rw [hrun, hf]
  split <;> rfl

end Session

theorem Memory.settled : Memory.facility.Settled := fun _ _ => rfl

/-- A copy of a template is stored, and counted, if the layer is there. -/
theorem Board.execute_addNode (b : Board) (template : Node) (layer : Option String) (order : List String) :
    (∃ e, b.needLayer? layer = .error e ∧ b.execute (.addNode template layer order) = ⟨b, .error e⟩) ∨
    (b.needLayer? layer = .ok () ∧ b.execute (.addNode template layer order) =
      ⟨(b.storeNode (b.instantiate template layer order)).countChange,
        .ok (.storedNode (b.instantiate template layer order))⟩) := by
  simp only [execute, perform, addNode]
  cases b.needLayer? layer with
  | error e => exact Or.inl ⟨e, rfl, rfl⟩
  | ok u => exact Or.inr ⟨rfl, rfl⟩

namespace Batch

variable {t : Occasion} {s : Progress} {i : Item} {f : Facility σ}

/-! ### Items, one after the other -/

theorem run_createAll_cons (start : Spot) (n : Nat) (r : List Item) (m : σ) :
    (createAll t start n s (i :: r)).run f m =
      (createAll t start (n + 1) ((create t s (t.grid.cell start n) (t.pinOrder n) i).run f m).1 r).run f
        ((create t s (t.grid.cell start n) (t.pinOrder n) i).run f m).2 :=
  Session.run_bind _ _ f m

theorem run_settleConnection (hf : f.Settled) (m : σ) : (settleConnection t i).run f m = ((), m) := by
  unfold settleConnection
  split
  · exact Session.run_settle hf _ _ m
  · rfl

theorem run_carryOutAll_cons (hf : f.Settled) (outdated : Bool) (r : List Item) (m : σ) :
    (carryOutAll t outdated s (i :: r)).run f m =
      (carryOutAll t (outdated || ((carryOut t outdated s i).run f m).1.lastApplied)
        ((carryOut t outdated s i).run f m).1 r).run f ((carryOut t outdated s i).run f m).2 := by
  have hfirst : ∀ m, (carryOutFirst t outdated s i r).run f m =
      (carryOutAll t (outdated || ((carryOut t outdated s i).run f m).1.lastApplied)
        ((carryOut t outdated s i).run f m).1 r).run f ((carryOut t outdated s i).run f m).2 := by
    intro m
    rw [carryOutFirst, Session.run_bind]
    cases ((carryOut t outdated s i).run f m).1.lastApplied with
    | true =>
      rw [if_pos rfl, Session.run_bind, run_settleConnection hf, Bool.or_true]
    | false => rw [if_neg Bool.false_ne_true, Bool.or_false]
  rw [carryOutAll_cons]
  split
  · exact hfirst m
  · rw [Session.run_bind, Session.run_settle hf]
    exact hfirst m

/-- What the making of one node keeps, in the cells that there are for the items, a round keeps. -/
theorem keeps_createAll {I : Progress × σ → Prop} (start : Spot) (l : List Item) (n : Nat)
    (hcreate : ∀ k < n + l.length, ∀ i ∈ l, ∀ s m, I (s, m) →
      I ((create t s (t.grid.cell start k) (t.pinOrder k) i).run f m)) {m : σ} (h : I (s, m)) :
    I ((createAll t start n s l).run f m) := by
  induction l generalizing n s m with
  | nil => exact h
  | cons i r ih =>
    rw [run_createAll_cons]
    rw [List.length_cons] at hcreate
    refine ih (n + 1) (fun k hk j hj => hcreate k (by omega) j (List.mem_cons_of_mem i hj)) ?_
    exact hcreate n (by omega) i List.mem_cons_self s m h

theorem keeps_carryOutAll (hf : f.Settled) {I : Progress × σ → Prop} (l : List Item)
    (hcarryOut : ∀ outdated, ∀ i ∈ l, ∀ s m, I (s, m) → I ((carryOut t outdated s i).run f m)) (outdated : Bool) {m : σ}
    (h : I (s, m)) : I ((carryOutAll t outdated s l).run f m) := by
  induction l generalizing outdated s m with
  | nil => exact h
  | cons i r ih =>
    rw [run_carryOutAll_cons hf]
    exact ih (fun outdated j hj => hcarryOut outdated j (List.mem_cons_of_mem i hj)) _
      (hcarryOut outdated i List.mem_cons_self s m h)

theorem lastApplied_applied (s : Progress) (i : Item) (entity : String) : (s.applied i entity).lastApplied = true := by
  simp [Progress.lastApplied, Progress.applied, Outcome.isApplied]

/-! ### Ends of an item -/

/-- The view is replaced by the memory's board. -/
theorem run_refresh (s : Progress) (i : Item) (m : Memory) :
    (refresh s i).run Memory.facility m = (.ok { s with view := m.board }, m) := rfl

/-- A node is made by a mutation that the board accepts, or the item fails and nothing changes. -/
theorem run_create_executes (t : Occasion) (s : Progress) (cell : Spot) (order : List String) (i : Item) (m : Memory) :
    (∃ e, (create t s cell order i).run Memory.facility m = (s.failed i e, m)) ∨
    ∃ c n, i.command.action.creation t.catalog s.view = .ok c ∧
      (m.board.execute (.addNode { c.template with place := (c.spot.getD cell).place 0 } c.layer order)).result =
        .ok (.storedNode n) ∧
      (create t s cell order i).run Memory.facility m = (s.addNode i c.ref n,
        ⟨(m.board.execute (.addNode { c.template with place := (c.spot.getD cell).place 0 } c.layer order)).board,
          m.journal ++ [.addNode { c.template with place := (c.spot.getD cell).place 0 } c.layer order]⟩) := by
  unfold create
  cases hc : i.command.action.creation t.catalog s.view with
  | error e => exact Or.inl ⟨e, rfl⟩
  | ok c =>
    rcases Board.execute_addNode m.board { c.template with place := (c.spot.getD cell).place 0 } c.layer order with
      ⟨e, -, he⟩ | ⟨-, hok⟩
    · exact Or.inl ⟨.refused (.ofBoardError e), by simp only [Session.run, Memory.facility, Memory.execute, he]⟩
    · refine Or.inr ⟨c, m.board.instantiate _ c.layer order, rfl, by rw [hok], ?_⟩
      simp only [Session.run, Memory.facility, Memory.execute, hok, Receipt.node?]

/-- A node is made on the board as it is, or the item fails and nothing changes. -/
theorem run_create_cases (t : Occasion) (s : Progress) (cell : Spot) (order : List String) (i : Item) (m : Memory) :
    (∃ e, (create t s cell order i).run Memory.facility m = (s.failed i e, m)) ∨
    ∃ c n, i.command.action.creation t.catalog s.view = .ok c ∧
      n = m.board.instantiate { c.template with place := (c.spot.getD cell).place 0 } c.layer order ∧
      (create t s cell order i).run Memory.facility m = (s.addNode i c.ref n,
        ⟨(m.board.storeNode n).countChange,
          m.journal ++ [.addNode { c.template with place := (c.spot.getD cell).place 0 } c.layer order]⟩) := by
  rcases run_create_executes t s cell order i m with h | ⟨c, n, hc, hresult, hrun⟩
  · exact Or.inl h
  · rcases Board.execute_addNode m.board { c.template with place := (c.spot.getD cell).place 0 } c.layer order with
      ⟨e, -, he⟩ | ⟨-, hok⟩
    · rw [he] at hresult
      cases hresult
    · rw [hok] at hresult hrun
      obtain rfl := Receipt.storedNode.inj (Except.ok.inj hresult)
      exact Or.inr ⟨c, _, hc, rfl, hrun⟩

/-- An item is carried out by its mutation, which the board accepts or refuses, or stands for none. -/
theorem run_perform_cases (t : Occasion) (s : Progress) (i : Item) (m : Memory) :
    (∃ e, i.command.action.mutation s.refs s.view t.now = .error e ∧
      (perform t s i).run Memory.facility m = (s.failed i e, m)) ∨
    ∃ mutation, i.command.action.mutation s.refs s.view t.now = .ok mutation ∧
      ((∃ e, (m.board.execute mutation).result = .error e ∧
        (perform t s i).run Memory.facility m =
          (s.failed i (.refused (.ofBoardError e)), ⟨(m.board.execute mutation).board, m.journal⟩)) ∨
      (∃ r, (m.board.execute mutation).result = .ok r ∧
        (perform t s i).run Memory.facility m =
          (s.applied i r.id, ⟨(m.board.execute mutation).board, m.journal ++ [mutation]⟩))) := by
  unfold perform
  cases hm : i.command.action.mutation s.refs s.view t.now with
  | error e => exact Or.inl ⟨e, rfl, rfl⟩
  | ok mutation =>
    refine Or.inr ⟨mutation, rfl, ?_⟩
    simp only [Session.run, Memory.facility, Memory.execute]
    rcases m.board.execute mutation with ⟨b, e | r⟩
    · exact Or.inl ⟨e, rfl, rfl⟩
    · exact Or.inr ⟨r, rfl, rfl⟩

end Batch

end Workboard
