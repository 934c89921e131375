import Workboard.Proofs.Account
import Workboard.Proofs.Run

/-! What a batch was granted.

A `Log` keeps the mutations that a facility accepted from a session, each with the board that had been
fetched last. `Session.Logs` says what holds of log and result, whatever the answers are. A batch's applied
outcomes and its accepted mutations go together one by one (`Batch.Explains`): each mutation is what the
command stands for, with the references that the batch has by then, on the fetched view. -/

namespace Workboard

structure Accepted where
  /-- The board as it was fetched last before. -/
  fetched : Option Board
  mutation : Mutation
  receipt : Receipt

structure Log where
  fetched : Option Board
  accepted : List Accepted

namespace Log

def empty : Log := ⟨none, []⟩

def fetch (l : Log) (b : Board) : Log := { l with fetched := some b }

def accept (l : Log) (m : Mutation) (r : Receipt) : Log := { l with accepted := l.accepted ++ [⟨l.fetched, m, r⟩] }

end Log

/-- The receipt for a new node is the node. -/
def Mutation.Fits (m : Mutation) (r : Receipt) : Prop := m.makesNode = true → ∃ n, r = .storedNode n

/-- A board that grants a new node answers with the node. -/
theorem Board.fits_execute {b : Board} {m : Mutation} {r : Receipt} (h : (b.execute m).result = .ok r) : m.Fits r := by
  intro hm
  obtain ⟨hperform, -⟩ := execute_of_ok h
  cases m with
  | addNode template layer order =>
    obtain ⟨-, -, hnext⟩ := Effect.given_of_ok hperform
    have hresult : b.perform (.addNode template layer order) = _ := hnext
    rw [hresult] at hperform
    cases hperform
    exact ⟨_, rfl⟩
  | _ => cases hm

namespace Session

variable {α β : Type} {Q : Log → α → Prop} {l : Log}

/-- Whatever the answers are, the log and the result satisfy `Q` in the end. -/
def Logs (Q : Log → α → Prop) : Session α → Log → Prop
  | done a, l => Q l a
  | execute m next, l => (∀ e, (next (.error e)).Logs Q l) ∧ ∀ r, m.Fits r → (next (.ok r)).Logs Q (l.accept m r)
  | snapshot next, l => (∀ e, (next (.error e)).Logs Q l) ∧ ∀ b, (next (.ok b)).Logs Q (l.fetch b)
  | fence _ next, l => ∀ r, (next r).Logs Q l
  | wait _ next, l => next.Logs Q l

theorem Logs.bind {x : Session α} {f : α → Session β} {R : Log → β → Prop} (h : x.Logs Q l)
    (hf : ∀ l a, Q l a → (f a).Logs R l) : (x >>= f).Logs R l := by
  show (x.bind f).Logs R l
  induction x generalizing l with
  | done a => exact hf l a h
  | execute m next ih => exact ⟨fun e => ih _ (h.1 e), fun r hr => ih _ (h.2 r hr)⟩
  | snapshot next ih => exact ⟨fun e => ih _ (h.1 e), fun b => ih _ (h.2 b)⟩
  | fence point next ih => exact fun r => ih r (h r)
  | wait t next ih => exact ih h

theorem logs_settle {Q : Log → Unit → Prop} (h : Q l ()) (pauses : Pauses) (point : SettlePoint) :
    (settle pauses point).Logs Q l := by
  intro settled
  dsimp only
  split <;> exact h

end Session

/-! ### References -/

/-- The reference that a command gives to the node that it makes. -/
def Action.ref? : Action → Option String
  | addNode r => r.ref
  | addPlaceholder r => r.ref
  | _ => none

theorem Action.ref_creation {a : Action} {c : Catalog} {view : Board} {made : Creation}
    (h : a.creation c view = .ok made) : made.ref = a.ref? := by
  unfold creation at h
  cases a with
  | addNode r =>
    obtain ⟨template, -, h⟩ := bind_eq_ok h
    obtain ⟨_, hpure, h⟩ := bind_eq_ok h
    obtain ⟨-, -, h⟩ := bind_eq_ok h
    cases hpure
    cases h
    rfl
  | addPlaceholder r =>
    obtain ⟨template, -, h⟩ := bind_eq_ok h
    obtain ⟨_, hpure, h⟩ := bind_eq_ok h
    obtain ⟨-, -, h⟩ := bind_eq_ok h
    cases hpure
    cases h
    rfl
  | _ => cases h

/-- Takes in the node that a command made. -/
def References.take (commands : List Command) (s : References) (p : Outcome × Accepted) : References :=
  match commands[p.1.index]?, p.2.receipt with
  | some c, .storedNode n => if c.createsNode then (s.register n c.action.ref? p.1.index).1 else s
  | _, _ => s

namespace Batch

open Progress

variable {t : Occasion} {commands : List Command} {start : Board} {l : Log} {s : Progress} {i : Item}

/-- An applied outcome is that of a mutation: the command made a node, or it stands for the mutation on a view.
    The view is the board that was fetched last, if any was; a pin's value is never set on another one. -/
inductive Explains (t : Occasion) (commands : List Command) (refs : References) (o : Outcome) (e : Accepted) : Prop where
  | made {c : Command} (command : commands[o.index]? = some c) (creates : c.createsNode = true)
      (makes : e.mutation.makesNode = true)
  | carriedOut {c : Command} {view : Board} (command : commands[o.index]? = some c) (creates : c.createsNode = false)
      (fetched : ∀ b, e.fetched = some b → view = b)
      (fresh : needsFresh false c.action = true → e.fetched = some view)
      (stands : c.action.mutation refs view t.now = .ok e.mutation)

/-- The references of a batch, from the nodes that it made. -/
def referencesOf (commands : List Command) (start : Board) (applied : List Outcome) (l : Log) : References :=
  (applied.zip l.accepted).foldl (References.take commands) (.seed start)

/-- While nodes are made. -/
structure Making (t : Occasion) (commands : List Command) (start : Board) (l : Log) (s : Progress) : Prop where
  pairs : ∀ refs, List.Forall₂ (Explains t commands refs) (s.outcomes.filter (·.isApplied)) l.accepted
  refs : s.refs = referencesOf commands start (s.outcomes.filter (·.isApplied)) l
  unfetched : l.fetched = none

/-- While other commands are carried out. -/
structure Told (t : Occasion) (commands : List Command) (start : Board) (l : Log) (s : Progress) : Prop where
  pairs : List.Forall₂ (Explains t commands s.refs) (s.outcomes.filter (·.isApplied)) l.accepted
  refs : s.refs = referencesOf commands start (s.outcomes.filter (·.isApplied)) l
  fetched : ∀ b, l.fetched = some b → s.view = b

theorem filter_failed (s : Progress) (i : Item) (e : ApplyError) :
    (s.failed i e).outcomes.filter (·.isApplied) = s.outcomes.filter (·.isApplied) := by
  simp [Progress.failed, Outcome.isApplied]

theorem filter_applied (s : Progress) (i : Item) (entity : String) :
    (s.applied i entity).outcomes.filter (·.isApplied) =
      s.outcomes.filter (·.isApplied) ++ [⟨i.index, i.command.kind, .applied entity⟩] := by
  simp [Progress.applied, Outcome.isApplied]

theorem Making.failed (h : Making t commands start l s) (i : Item) (e : ApplyError) :
    Making t commands start l (s.failed i e) where
  pairs := by
    rw [filter_failed]
    exact h.pairs
  refs := by
    rw [filter_failed]
    exact h.refs
  unfetched := h.unfetched

theorem Told.failed (h : Told t commands start l s) (i : Item) (e : ApplyError) :
    Told t commands start l (s.failed i e) where
  pairs := by
    rw [filter_failed]
    exact h.pairs
  refs := by
    rw [filter_failed]
    exact h.refs
  fetched := h.fetched

theorem referencesOf_accept {applied : List Outcome} (hlength : applied.length = l.accepted.length) (o : Outcome)
    (m : Mutation) (r : Receipt) :
    referencesOf commands start (applied ++ [o]) (l.accept m r) =
      (referencesOf commands start applied l).take commands (o, ⟨l.fetched, m, r⟩) := by
  unfold referencesOf Log.accept
  rw [List.zip_append hlength, List.foldl_append]
  rfl

theorem Making.told (h : Making t commands start l s) : Told t commands start l s where
  pairs := h.pairs s.refs
  refs := h.refs
  fetched b hb := by
    rw [h.unfetched] at hb
    cases hb

theorem Making.addNode (h : Making t commands start l s) (hc : commands[i.index]? = some i.command)
    (hcreates : i.command.createsNode = true) {m : Mutation} (hm : m.makesNode = true) (n : Node) :
    Making t commands start (l.accept m (.storedNode n)) (s.addNode i i.command.action.ref? n) where
  pairs refs := by
    show List.Forall₂ _ ((s.applied i n.id).outcomes.filter (·.isApplied)) _
    rw [filter_applied]
    exact List.rel_append (h.pairs refs) (.cons (.made hc hcreates hm) .nil)
  refs := by
    show (s.refs.register n i.command.action.ref? i.index).1 =
      referencesOf commands start ((s.applied i n.id).outcomes.filter (·.isApplied)) _
    rw [filter_applied, referencesOf_accept (h.pairs s.refs).length_eq, ← h.refs]
    simp [References.take, hc, hcreates]
  unfetched := h.unfetched

theorem Told.applied (h : Told t commands start l s) (hc : commands[i.index]? = some i.command)
    (hcreates : i.command.createsNode = false) {m : Mutation} (hm : i.command.action.mutation s.refs s.view t.now = .ok m)
    (hfresh : needsFresh false i.command.action = true → l.fetched = some s.view) (r : Receipt) (entity : String) :
    Told t commands start (l.accept m r) (s.applied i entity) where
  pairs := by
    rw [filter_applied]
    exact List.rel_append h.pairs (.cons (.carriedOut hc hcreates h.fetched hfresh hm) .nil)
  refs := by
    rw [filter_applied, referencesOf_accept h.pairs.length_eq, ← h.refs]
    cases r <;> simp [References.take, hc, hcreates] <;> rfl
  fetched := h.fetched

/-! ### Sessions -/

theorem logs_create (h : Making t commands start l s) (hc : commands[i.index]? = some i.command)
    (hcreates : i.command.createsNode = true) (cell : Spot) (order : List String) :
    (create t s cell order i).Logs (Making t commands start) l := by
  unfold create
  split
  · exact h.failed i _
  · rename_i made hmade
    rw [Action.ref_creation hmade]
    refine ⟨fun e => h.failed i _, fun r hr => ?_⟩
    obtain ⟨n, rfl⟩ := hr rfl
    exact h.addNode hc hcreates rfl n

theorem logs_createAll (h : Making t commands start l s) {items : List Item}
    (hitems : ∀ i ∈ items, commands[i.index]? = some i.command ∧ i.command.createsNode = true) (origin : Spot) (n : Nat) :
    (createAll t origin n s items).Logs (Making t commands start) l := by
  induction items generalizing n s l with
  | nil => exact h
  | cons i items ih =>
    obtain ⟨hc, hcreates⟩ := hitems i List.mem_cons_self
    refine (logs_create h hc hcreates _ _).bind fun l' s' h' => ?_
    exact ih h' (fun j hj => hitems j (List.mem_cons_of_mem i hj)) (n + 1)

theorem logs_perform (h : Told t commands start l s) (hc : commands[i.index]? = some i.command)
    (hcreates : i.command.createsNode = false)
    (hfresh : needsFresh false i.command.action = true → l.fetched = some s.view) :
    (perform t s i).Logs (Told t commands start) l := by
  unfold perform
  split
  · exact h.failed i _
  · rename_i m hm
    exact ⟨fun e => h.failed i _, fun r _ => h.applied hc hcreates hm hfresh r _⟩

theorem logs_refresh (h : Told t commands start l s) (i : Item) :
    (refresh s i).Logs (fun l' r =>
      match r with
      | .ok s' => Told t commands start l' s' ∧ (needsFresh false i.command.action = true → l'.fetched = some s'.view)
      | .error _ => Told t commands start l' s) l := by
  refine ⟨fun e => ?_, fun b => ⟨⟨h.pairs, h.refs, fun b' hb => ?_⟩, fun _ => rfl⟩⟩
  · dsimp only
    split
    · exact h
    · rename_i hother
      refine ⟨h, fun hneeds => ?_⟩
      unfold needsFresh at hneeds
      split at hneeds
      · rename_i ref pin value heq
        exact absurd heq (hother ref pin value)
      · cases hneeds
  · cases hb
    rfl

theorem logs_carryOut (h : Told t commands start l s) (hc : commands[i.index]? = some i.command)
    (hcreates : i.command.createsNode = false) (outdated : Bool) :
    (carryOut t outdated s i).Logs (Told t commands start) l := by
  unfold carryOut
  split
  · refine (logs_refresh h i).bind fun l' r h' => ?_
    cases r with
    | ok s' => exact logs_perform h'.1 hc hcreates h'.2
    | error e => exact h'.failed i e
  · rename_i hneeds
    refine logs_perform h hc hcreates fun hfresh => absurd ?_ hneeds
    unfold needsFresh at hfresh ⊢
    split at hfresh
    · rfl
    · cases hfresh

theorem logs_settleConnection (h : Told t commands start l s) (i : Item) :
    (settleConnection t i).Logs (fun l' _ => Told t commands start l' s) l := by
  unfold settleConnection
  split
  · exact Session.logs_settle h _ _
  · exact h

theorem logs_carryOutAll (h : Told t commands start l s) {items : List Item}
    (hitems : ∀ i ∈ items, commands[i.index]? = some i.command ∧ i.command.createsNode = false) (outdated : Bool) :
    (carryOutAll t outdated s items).Logs (Told t commands start) l := by
  induction items generalizing outdated s l with
  | nil => exact h
  | cons i items ih =>
    obtain ⟨hc, hcreates⟩ := hitems i List.mem_cons_self
    have hall : ∀ {l s}, Told t commands start l s → ∀ outdated,
        (carryOutAll t outdated s items).Logs (Told t commands start) l := fun h outdated =>
      ih h (fun j hj => hitems j (List.mem_cons_of_mem i hj)) outdated
    have hfirst : ∀ {l}, Told t commands start l s →
        (carryOutFirst t outdated s i items).Logs (Told t commands start) l := by
      intro l h
      unfold carryOutFirst
      refine (logs_carryOut h hc hcreates outdated).bind fun l' s' h' => ?_
      split
      · exact (logs_settleConnection h' i).bind fun _ _ h'' => hall h'' true
      · exact hall h' outdated
    rw [carryOutAll_cons]
    split
    · exact hfirst h
    · exact (Session.logs_settle (Q := fun l' _ => Told t commands start l' s) h _ _).bind fun _ _ h' => hfirst h'

/-- The applied outcomes of a report and the accepted mutations go together, one by one and in order. -/
def Explained (t : Occasion) (commands : List Command) (start : Board) (l : Log) (r : Report) : Prop :=
  List.Forall₂ (Explains t commands (referencesOf commands start (r.outcomes.filter (·.isApplied)) l))
    (r.outcomes.filter (·.isApplied)) l.accepted

theorem logs_apply (t : Occasion) (start : Board) (commands : List Command) :
    (apply t start commands).Logs (fun l r => Explained t commands start l r.1) .empty := by
  have hitems : ∀ creates, ∀ i ∈ (items commands).filter (·.command.createsNode == creates),
      commands[i.index]? = some i.command ∧ i.command.createsNode = creates := fun creates i hi => by
    obtain ⟨hi, hcreates⟩ := List.mem_filter.mp hi
    exact ⟨mem_items.mp hi, beq_iff_eq.mp hcreates⟩
  have hbegin : Making t commands start .empty (.begin start) := ⟨fun _ => .nil, rfl, rfl⟩
  unfold apply
  rw [partition_items]
  refine (logs_createAll hbegin (hitems true) _ 0).bind fun l s h => ?_
  refine (logs_carryOutAll h.told (hitems false) false).bind fun l' s' h' => ?_
  show List.Forall₂ _ _ _
  have := h'.pairs
  rwa [h'.refs] at this

end Batch

end Workboard
