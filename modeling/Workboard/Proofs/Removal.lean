import Workboard.Proofs.Merging
import Workboard.Proofs.Refetching
import Workboard.Proofs.StaleViews

/-! Removed nodes stay removed.

The references of a batch still stand for a node that one of its commands has removed, and a view that could not be
fetched still shows it. But a board carries a mutation out only if all nodes that the mutation addresses are there
(`Board.node?_of_execute`), and none of the mutations that come once all nodes are made brings a node back
(`Board.Gone.execute`). So every later command on a removed node fails (`Batch.apply_removed`). -/

namespace Workboard

/-- The ids of the nodes that a mutation addresses. -/
def Mutation.nodes : Mutation → List String
  | .removeNode id => [id]
  | .connect w | .disconnect w => [w.fromNode, w.toNode]
  | .updateNode _ n => [n.id]
  | .moveNode id .. => [id]
  | .upsertLayer _ members | .addToLayer _ members | .removeFromLayer _ members => members
  | _ => []

namespace Board

variable {b : Board} {x : String} {m : Mutation} {r : Receipt}

/-! ### Nodes that are addressed -/

theorem node?_of_needEnds {w : Wire} {u : Unit} (h : b.needEnds w = .ok u) (hx : x ∈ [w.fromNode, w.toNode]) :
    ∃ n, b.node? x = some n := by
  obtain ⟨source, hsource, h⟩ := bind_eq_ok h
  obtain ⟨target, htarget, -⟩ := bind_eq_ok h
  rcases List.mem_cons.mp hx with rfl | hx
  · exact ⟨source, needNode_eq_ok.mp hsource⟩
  · obtain rfl := List.mem_singleton.mp hx
    exact ⟨target, needNode_eq_ok.mp htarget⟩

theorem node?_of_perform (h : (b.perform m).result = .ok r) (hx : x ∈ m.nodes) : ∃ n, b.node? x = some n := by
  have single {id : String} {next : Node → Effect} (h : (Effect.given b (b.needNode id) next).result = .ok r)
      (hx : x ∈ [id]) : ∃ n, b.node? x = some n := by
    obtain ⟨n, hn, -⟩ := Effect.given_of_ok h
    exact ⟨n, List.mem_singleton.mp hx ▸ needNode_eq_ok.mp hn⟩
  cases m with
  | removeNode id => exact single h hx
  | connect w =>
    obtain ⟨_, hends, -⟩ := Effect.given_of_ok h
    exact node?_of_needEnds hends hx
  | disconnect w =>
    obtain ⟨_, hends, -⟩ := Effect.given_of_ok h
    exact node?_of_needEnds hends hx
  | updateNode expected node => exact single h hx
  | moveNode id start goal layer => exact single h hx
  | upsertLayer l members =>
    obtain ⟨_, -, heq⟩ := Effect.given_of_ok h
    rw [show b.perform (.upsertLayer l members) = _ from heq] at h
    obtain ⟨_, hmembers, -⟩ := Effect.given_of_ok h
    exact node?_of_needNodes hmembers hx
  | addToLayer id members =>
    obtain ⟨_, -, heq⟩ := Effect.given_of_ok h
    rw [show b.perform (.addToLayer id members) = _ from heq] at h
    obtain ⟨_, hmembers, -⟩ := Effect.given_of_ok h
    exact node?_of_needNodes hmembers hx
  | removeFromLayer id members =>
    obtain ⟨_, -, heq⟩ := Effect.given_of_ok h
    rw [show b.perform (.removeFromLayer id members) = _ from heq] at h
    obtain ⟨_, hmembers, -⟩ := Effect.given_of_ok h
    exact node?_of_needNodes hmembers hx
  | _ => cases hx

/-- A mutation is carried out only if all nodes that it addresses are there. -/
theorem node?_of_execute (h : (b.execute m).result = .ok r) (hx : x ∈ m.nodes) : ∃ n, b.node? x = some n :=
  node?_of_perform (execute_of_ok h).1 hx

/-! ### Nodes that are gone -/

/-- There is no copy of a node. -/
def Gone (b : Board) (x : String) : Prop := ∀ shelf, b.copy? shelf x = none

theorem Gone.node? (h : b.Gone x) : b.node? x = none := by
  cases hn : b.node? x with
  | none => rfl
  | some n =>
    obtain ⟨shelf, hc⟩ := copy?_of_node? hn
    rw [h] at hc
    cases hc

/-- Only the making of nodes brings new ids of nodes. -/
theorem Gone.execute (h : b.Gone x) (hb : b.Keyed) (hm : m.Proper) (hmakes : m.makesNode = false) :
    (b.execute m).board.Gone x := by
  have hlabels : b.Labelled fun key id => id = key ∧ key ≠ x := by
    intro shelf key n hn
    refine ⟨keyed_iff.mp hb shelf key n hn, ?_⟩
    rintro rfl
    rw [h] at hn
    cases hn
  have hafter : (b.execute m).board.Labelled fun key id => id = key ∧ key ≠ x := by
    refine hlabels.execute (fun key id ⟨hid, hne⟩ => ⟨rfl, hid ▸ hne⟩) hm fun hm => ?_
    rw [hmakes] at hm
    cases hm
  intro shelf
  cases hn : (b.execute m).board.copy? shelf x with
  | none => rfl
  | some n => exact absurd rfl (hafter shelf x n hn).2

theorem Keyed.gone_removeNode (hb : b.Keyed) (h : (b.execute (.removeNode x)).result = .ok r) :
    (b.execute (.removeNode x)).board.Gone x ∧ r.id = x := by
  obtain ⟨hok, hboard⟩ := execute_of_ok h
  obtain ⟨n, hn⟩ := node?_of_execute h List.mem_cons_self
  change (b.removeNode x).result = .ok r at hok
  rw [removeNode_of_node? hn] at hok
  cases hok
  refine ⟨fun shelf => ?_, hb.id_of_node? hn⟩
  rw [hboard]
  show (b.removeNode x).board.copy? shelf x = none
  rw [removeNode_of_node? hn, ← Option.not_isSome_iff_eq_none, isSome_copy?_editNodes, copy?_dropNode, if_pos rfl]
  exact Bool.false_ne_true

end Board

/-! ### What references stand for -/

namespace References

variable {s : References} {view : Board} {n : Node} {ref : String}

/-- The id that a reference stands for: that of the node that has the alias, or else the reference itself. -/
def target (s : References) (ref : String) : String := (s.id? ref).getD (Text.trim ref)

theorem id_of_node (hview : view.Keyed) (h : s.node view ref = .ok n) : n.id = s.target ref := by
  unfold References.node at h
  unfold target id?
  dsimp only at h
  split at h
  · rename_i held hheld
    rw [hheld]
    cases h
    cases hn : view.node? held.node.id with
    | some m => exact hview.id_of_node? hn
    | none => rfl
  · rename_i hnone
    rw [hnone]
    split at h
    · rename_i m hm
      cases h
      exact hview.id_of_node? hm
    · cases h

theorem ids_eq (hview : view.Keyed) {refs ids : List String} (h : s.ids view refs = .ok ids) : ids = refs.map s.target := by
  unfold References.ids at h
  induction refs generalizing ids with
  | nil =>
    cases h
    rfl
  | cons ref refs ih =>
    rw [List.mapM_cons] at h
    obtain ⟨id, hid, h⟩ := bind_eq_ok h
    obtain ⟨rest, hrest, h⟩ := bind_eq_ok h
    cases h
    cases hn : s.node view ref with
    | error e =>
      rw [hn] at hid
      cases hid
    | ok n =>
      rw [hn] at hid
      cases hid
      rw [List.map_cons, ← ih hrest]
      exact congrArg (· :: rest) (id_of_node hview hn)

theorem wire_eq (hview : view.Keyed) {request : WireRequest} {w : Wire} (h : s.wire view request = .ok w) :
    [w.fromNode, w.toNode] = [request.fromNode, request.toNode].map s.target := by
  obtain ⟨source, hsource, h⟩ := bind_eq_ok h
  obtain ⟨target, htarget, h⟩ := bind_eq_ok h
  obtain ⟨output, -, h⟩ := bind_eq_ok h
  obtain ⟨input, -, h⟩ := bind_eq_ok h
  cases h
  rw [List.map_cons, List.map_cons, List.map_nil, id_of_node hview hsource, id_of_node hview htarget]

end References

/-- An action's mutation addresses just the nodes that its references stand for. -/
theorem Action.nodes_mutation {a : Action} {s : References} {view : Board} {now : UInt64} {m : Mutation} (hview : view.Keyed)
    (h : a.mutation s view now = .ok m) : m.nodes = a.nodeRefs.map s.target := by
  have single {ref : String} {n : Node} (hn : s.node view ref = .ok n) : [n.id] = [ref].map s.target := by
    rw [References.id_of_node hview hn]
    rfl
  cases asks_of_mutation h with
  | removeNode hn => exact single hn
  | @updateNodePin ref _ _ n _ hn =>
    show [n.id] = _
    exact single hn
  | moveNode hn => exact single hn
  | connectPins hw | disconnectPins hw => exact References.wire_eq hview hw
  | createLayer _ hmembers => exact References.ids_eq hview hmembers
  | addNodesToLayer _ hmembers => exact References.ids_eq hview hmembers
  | removeNodesFromLayer _ hmembers => exact References.ids_eq hview hmembers
  | _ => rfl

/-! ### Sessions that fetch nothing -/

namespace Session

variable {α β : Type}

/-- Whatever the answers are, no snapshot is asked for. -/
def Fetchless : Session α → Prop
  | done _ => True
  | execute _ next => ∀ r, (next r).Fetchless
  | snapshot _ => False
  | fence _ next => ∀ r, (next r).Fetchless
  | wait _ next => next.Fetchless

theorem Fetchless.bind {x : Session α} {f : α → Session β} (h : x.Fetchless) (hf : ∀ a, (f a).Fetchless) :
    (x >>= f).Fetchless := by
  show (x.bind f).Fetchless
  induction x with
  | done a => exact hf a
  | execute m next ih => exact fun r => ih r (h r)
  | snapshot next ih => exact h.elim
  | fence point next ih => exact fun r => ih r (h r)
  | wait t next ih => exact ih h

/-- Then it makes no difference which snapshots are refused. -/
theorem Fetchless.run_flaky {x : Session α} (h : x.Fetchless) (refused : Nat → Option Refusal) (s : Flaky) :
    (x.run (Flaky.facility refused) s).1 = (x.run Memory.facility s.memory).1 ∧
      (x.run (Flaky.facility refused) s).2.memory = (x.run Memory.facility s.memory).2 := by
  induction x generalizing s with
  | done a => exact ⟨rfl, rfl⟩
  | execute m next ih =>
    simp only [Session.run, Flaky.facility, Memory.facility]
    rcases s.memory.execute m with ⟨e | r, memory⟩
    · exact ih _ (h _) { s with memory }
    · exact ih _ (h _) { s with memory, epochs := s.epochs ++ [s.given] }
  | snapshot next ih => exact h.elim
  | fence point next ih => exact ih _ (h _) s
  | wait t next ih => exact ih h s

end Session

namespace Batch

open Session (Fetchless)

variable {t : Occasion} {p : Progress} {m : Memory} {s : Flaky} {i : Item} {refs : References} {commands : List Command}
  {refused : Nat → Option Refusal}

theorem fetchless_create (t : Occasion) (p : Progress) (cell : Spot) (order : List String) (i : Item) :
    (create t p cell order i).Fetchless := by
  unfold create
  split
  · trivial
  · rintro (e | r)
    · trivial
    · dsimp only
      split <;> trivial

theorem fetchless_createAll (t : Occasion) (start : Spot) (n : Nat) (p : Progress) (l : List Item) :
    (createAll t start n p l).Fetchless := by
  induction l generalizing n p with
  | nil => trivial
  | cons i r ih => exact (fetchless_create t p _ _ i).bind fun p => ih (n + 1) p

theorem fetchless_perform (t : Occasion) (p : Progress) (i : Item) : (perform t p i).Fetchless := by
  unfold perform
  split
  · trivial
  · rintro (e | r) <;> trivial

/-- The view that a refresh leaves is the board, if it could be had, or as before; or what needs a fresh one fails. -/
theorem run_refresh_flaky (refused : Nat → Option Refusal) (p : Progress) (i : Item) (s : Flaky) :
    ∃ s', s'.memory = s.memory ∧
      ((∃ view, (view = p.view ∨ view = s.memory.board) ∧
        (refresh p i).run (Flaky.facility refused) s = (.ok { p with view }, s')) ∨
      ∃ e, (refresh p i).run (Flaky.facility refused) s = (.error e, s')) := by
  simp only [refresh, Session.run, Flaky.facility]
  cases refused s.asked with
  | none => exact ⟨{ s with asked := s.asked + 1, given := s.given + 1 }, rfl, Or.inl ⟨s.memory.board, Or.inr rfl, rfl⟩⟩
  | some e =>
    refine ⟨{ s with asked := s.asked + 1 }, rfl, ?_⟩
    dsimp only
    split
    · exact Or.inr ⟨_, rfl⟩
    · exact Or.inl ⟨p.view, Or.inl rfl, rfl⟩

/-- An item is carried out as with a memory, on the view as it is or on a fresh one; or it fails for want of one. -/
theorem run_carryOut_flaky (refused : Nat → Option Refusal) (t : Occasion) (outdated : Bool) (p : Progress) (i : Item)
    (s : Flaky) :
    (∃ view, (view = p.view ∨ view = s.memory.board) ∧
      ((carryOut t outdated p i).run (Flaky.facility refused) s).1 = ((perform t { p with view } i).run Memory.facility s.memory).1 ∧
      ((carryOut t outdated p i).run (Flaky.facility refused) s).2.memory =
        ((perform t { p with view } i).run Memory.facility s.memory).2) ∨
    ∃ e, ((carryOut t outdated p i).run (Flaky.facility refused) s).1 = p.failed i e ∧
      ((carryOut t outdated p i).run (Flaky.facility refused) s).2.memory = s.memory := by
  unfold carryOut
  split
  · rw [Session.run_bind]
    obtain ⟨s', hmemory, ⟨view, hview, hrun⟩ | ⟨e, hrun⟩⟩ := run_refresh_flaky refused p i s
    · rw [hrun, ← hmemory]
      exact Or.inl ⟨view, hmemory ▸ hview, (fetchless_perform t { p with view } i).run_flaky refused s'⟩
    · rw [hrun]
      exact Or.inr ⟨e, rfl, hmemory⟩
  · exact Or.inl ⟨p.view, Or.inl rfl, (fetchless_perform t p i).run_flaky refused s⟩

/-! ### Items -/

/-- What a command came to that removed a node. -/
def Removes (refs : References) (commands : List Command) (o : Outcome) (x : String) : Prop :=
  o.isApplied = true ∧ ∃ c ref, commands[o.index]? = some c ∧ c.action = .removeNode ref ∧ refs.target ref = x

/-- What a command came to one of whose references stands for a node. -/
def Concerns (refs : References) (commands : List Command) (o : Outcome) (x : String) : Prop :=
  ∃ c, commands[o.index]? = some c ∧ x ∈ c.action.nodeRefs.map refs.target

/-- How far a batch has come after its nodes were made: the nodes that were removed are gone, and no command on one of them
has been applied since. -/
structure Cleared (refs : References) (commands : List Command) (p : Progress) (m : Memory) : Prop where
  known : p.refs = refs
  view : p.view.Keyed
  board : m.board.Keyed
  gone : ∀ o ∈ p.outcomes, ∀ x, Removes refs commands o x → o.entity? = some x ∧ m.board.Gone x
  after : p.outcomes.Pairwise fun o o' => ∀ x, Removes refs commands o x → Concerns refs commands o' x → o'.isApplied = false

theorem Cleared.failed (h : Cleared refs commands p m) (i : Item) (e : ApplyError) : Cleared refs commands (p.failed i e) m where
  known := h.known
  view := h.view
  board := h.board
  gone o ho x hx := by
    rcases List.mem_append.mp ho with ho | ho
    · exact h.gone o ho x hx
    · obtain rfl := List.mem_singleton.mp ho
      cases hx.1
  after := by
    refine List.pairwise_append.mpr ⟨h.after, List.pairwise_singleton _ _, fun o _ o' ho' x _ _ => ?_⟩
    obtain rfl := List.mem_singleton.mp ho'
    rfl

theorem cleared_perform (h : Cleared refs commands p m) (hc : commands[i.index]? = some i.command) :
    Cleared refs commands ((perform t p i).run Memory.facility m).1 ((perform t p i).run Memory.facility m).2 := by
  rcases run_perform_cases t p i m with ⟨e, -, hrun⟩ | ⟨mutation, hm, ⟨e, he, hrun⟩ | ⟨r, hr, hrun⟩⟩
  · rw [hrun]
    exact h.failed i e
  · rw [hrun, h.board.board_of_error he]
    exact h.failed i _
  · rw [hrun]
    obtain ⟨hproper, hmakes⟩ := Action.proper_mutation hm
    have hnodes := Action.nodes_mutation h.view hm
    rw [h.known] at hnodes
    refine ⟨h.known, h.view, h.board.execute hproper, fun o ho x hx => ?_, ?_⟩
    · rcases List.mem_append.mp ho with ho | ho
      · obtain ⟨hentity, hgone⟩ := h.gone o ho x hx
        exact ⟨hentity, hgone.execute h.board hproper hmakes⟩
      · obtain rfl := List.mem_singleton.mp ho
        obtain ⟨-, c, ref, hc', haction, rfl⟩ := hx
        obtain rfl : i.command = c := Option.some.inj (hc.symm.trans hc')
        rw [haction] at hm
        obtain ⟨n, hn, hm⟩ := bind_eq_ok hm
        cases hm
        rw [References.id_of_node h.view hn, h.known] at hr ⊢
        obtain ⟨hgone, hid⟩ := h.board.gone_removeNode hr
        exact ⟨congrArg some hid, hgone⟩
    · refine List.pairwise_append.mpr ⟨h.after, List.pairwise_singleton _ _, fun o ho o' ho' x hx hconcerns => ?_⟩
      obtain rfl := List.mem_singleton.mp ho'
      obtain ⟨c, hc', hmem⟩ := hconcerns
      obtain rfl : i.command = c := Option.some.inj (hc.symm.trans hc')
      -- The board would have to have a node that is gone.
      rw [← hnodes] at hmem
      obtain ⟨n, hn⟩ := Board.node?_of_execute hr hmem
      rw [(h.gone o ho x hx).2.node?] at hn
      cases hn

theorem cleared_carryOut (h : Cleared refs commands p s.memory) (hc : commands[i.index]? = some i.command) (outdated : Bool) :
    Cleared refs commands ((carryOut t outdated p i).run (Flaky.facility refused) s).1
      ((carryOut t outdated p i).run (Flaky.facility refused) s).2.memory := by
  rcases run_carryOut_flaky refused t outdated p i s with ⟨view, hview, hprogress, hmemory⟩ | ⟨e, hprogress, hmemory⟩
  · rw [hprogress, hmemory]
    refine cleared_perform ⟨h.known, ?_, h.board, h.gone, h.after⟩ hc
    rcases hview with rfl | rfl
    · exact h.view
    · exact h.board
  · rw [hprogress, hmemory]
    exact h.failed i e

/-! ### Batches -/

/-- What the commands of a batch may call nodes once its nodes are made. -/
def references (t : Occasion) (b : Board) (commands : List Command) : References :=
  ((createAll t (t.grid.start b) 0 (.begin b) ((items commands).filter (·.command.createsNode == true))).run Memory.facility
    (.ofBoard b)).1.refs

theorem cleared_createAll (t : Occasion) {b : Board} (hb : b.Keyed) (commands : List Command) :
    let x := (createAll t (t.grid.start b) 0 (.begin b) ((items commands).filter (·.command.createsNode == true))).run
      Memory.facility (.ofBoard b)
    Cleared (references t b commands) commands x.1 x.2 := by
  intro x
  have halike : Board.Alike x.1.view x.2.board := alike_createAll (s := .begin b) (m := .ofBoard b) _ _ 0 (.refl hb)
  -- No command that makes a node removes one.
  have hnone : ∀ o ∈ x.1.outcomes, ∀ y, ¬ Removes (references t b commands) commands o y := by
    rintro o ho y ⟨-, c, ref, hc, haction, -⟩
    obtain ⟨made, hmade⟩ := (deals_createAll t (t.grid.start b) ((items commands).filter (·.command.createsNode == true)) 0
      (.begin b)).run Memory.facility (.ofBoard b)
    rw [hmade.added] at ho
    obtain ⟨d, hd, -, hcreates⟩ := command_of_reported hmade ho
    obtain rfl : d = c := Option.some.inj (hd.symm.trans hc)
    rw [Command.createsNode, haction] at hcreates
    cases hcreates
  exact ⟨rfl, halike.left, halike.right, fun o ho y hy => absurd hy (hnone o ho y),
    List.pairwise_of_forall_mem_list fun o ho _ _ y hy => absurd hy (hnone o ho y)⟩

theorem cleared_apply (t : Occasion) {b : Board} (hb : b.Keyed) (commands : List Command) (refused : Nat → Option Refusal) :
    ∃ p notices s, (apply t b commands).run (Flaky.facility refused) (.ofBoard b) = ((⟨p.outcomes, p.created, true⟩, notices), s) ∧
      Cleared (references t b commands) commands p s.memory := by
  have hfirst := cleared_createAll t hb commands
  obtain ⟨hprogress, hmemory⟩ := (fetchless_createAll t (t.grid.start b) 0 (.begin b)
    ((items commands).filter (·.command.createsNode == true))).run_flaky refused (.ofBoard b)
  dsimp only at hfirst
  rw [show (Flaky.ofBoard b).memory = .ofBoard b from rfl] at hprogress hmemory
  rw [← hprogress, ← hmemory] at hfirst
  unfold apply
  simp only [partition_items, Session.run_bind]
  refine ⟨_, _, _, rfl, ?_⟩
  refine keeps_carryOutAll (Flaky.settled refused)
    (I := fun x => Cleared (references t b commands) commands x.1 x.2.memory) _ (fun outdated i hi p s h => ?_) false hfirst
  exact cleared_carryOut h (mem_items.mp (List.mem_of_mem_filter hi)) outdated

/-- Of two commands that make no nodes the later one is carried out later. -/
theorem Accounts.pairwise {report : Report} {notices : List Notice} (h : Accounts commands report notices)
    {R : Outcome → Outcome → Prop} (hR : report.outcomes.Pairwise R) {i j : Nat} (hi : i ∈ positions commands false)
    (hj : j ∈ positions commands false) (hlt : i < j) :
    ∃ o o', report.outcome? i = some o ∧ report.outcome? j = some o' ∧ R o o' := by
  obtain ⟨k, hk⟩ := List.mem_iff_getElem?.mp hi
  obtain ⟨l, hl⟩ := List.mem_iff_getElem?.mp hj
  obtain ⟨o, ho, hoi⟩ := h.getElem?_outcomes hk
  obtain ⟨o', ho', hoj⟩ := h.getElem?_outcomes hl
  have hsorted : (positions commands false).Pairwise (· < ·) := List.Pairwise.filter _ List.pairwise_lt_range
  have hkl : k < l := by
    by_contra hle
    obtain ⟨hkn, rfl⟩ := List.getElem?_eq_some_iff.mp hk
    obtain ⟨hln, rfl⟩ := List.getElem?_eq_some_iff.mp hl
    rcases (Nat.le_of_not_lt hle).lt_or_eq with hgt | rfl
    · exact absurd (List.pairwise_iff_getElem.mp hsorted l k hln hkn hgt) (Nat.lt_asymm hlt)
    · exact Nat.lt_irrefl _ hlt
  refine ⟨o, o', hoi, hoj, ?_⟩
  obtain ⟨hk', rfl⟩ := List.getElem?_eq_some_iff.mp ho
  obtain ⟨hl', rfl⟩ := List.getElem?_eq_some_iff.mp ho'
  exact List.pairwise_iff_getElem.mp hR _ _ hk' hl' (Nat.add_lt_add_left hkl _)

theorem mem_positions {creates : Bool} {i : Nat} :
    i ∈ positions commands creates ↔ ∃ c, commands[i]? = some c ∧ c.createsNode = creates := by
  unfold positions
  rw [List.mem_filter, List.mem_range]
  constructor
  · rintro ⟨hi, h⟩
    rw [List.getElem?_eq_getElem hi] at h ⊢
    exact ⟨_, rfl, by simpa using h⟩
  · rintro ⟨c, hc, rfl⟩
    refine ⟨(List.getElem?_eq_some_iff.mp hc).1, ?_⟩
    rw [hc]
    simp

/-- Whatever snapshots are refused: once a command has removed a node, every later command fails that has a reference which
stands for the node, and at the end there is no copy of the node on the board. -/
theorem apply_removed (t : Occasion) {b : Board} (hb : b.Keyed) (commands : List Command) (refused : Nat → Option Refusal) :
    let run := (apply t b commands).run (Flaky.facility refused) (.ofBoard b)
    let refs := references t b commands
    ∀ i c ref o, commands[i]? = some c → c.action = .removeNode ref → run.1.1.outcome? i = some o → o.isApplied = true →
      o.entity? = some (refs.target ref) ∧
      (∀ shelf, run.2.memory.board.copy? shelf (refs.target ref) = none) ∧
      ∀ j d, i < j → commands[j]? = some d → (∃ r ∈ d.action.nodeRefs, refs.target r = refs.target ref) →
        ∃ o', run.1.1.outcome? j = some o' ∧ o'.isApplied = false := by
  intro run refs i c ref o hc haction ho happlied
  obtain ⟨p, notices, s, hrun, hcleared⟩ := cleared_apply t hb commands refused
  have haccounts := accounts_of_run hrun
  rw [show run = _ from hrun] at ho ⊢
  have hindex : o.index = i := by simpa using List.find?_some ho
  have hremoves : Removes refs commands o (refs.target ref) := ⟨happlied, c, ref, hindex ▸ hc, haction, rfl⟩
  obtain ⟨hentity, hgone⟩ := hcleared.gone o (List.mem_of_find?_eq_some ho) _ hremoves
  refine ⟨hentity, hgone, fun j d hlt hd ⟨r, hr, htarget⟩ => ?_⟩
  have hi : i ∈ positions commands false := mem_positions.mpr ⟨c, hc, by rw [Command.createsNode, haction]; rfl⟩
  have hj : j ∈ positions commands false := by
    refine mem_positions.mpr ⟨d, hd, ?_⟩
    unfold Command.createsNode
    cases hd : d.action <;> rw [hd] at hr <;> first | rfl | cases hr
  obtain ⟨o₀, o', ho₀, ho', hafter⟩ := haccounts.pairwise hcleared.after hi hj hlt
  obtain rfl : o = o₀ := Option.some.inj (ho.symm.trans ho₀)
  have hindex' : o'.index = j := by simpa using List.find?_some ho'
  refine ⟨o', ho', hafter _ hremoves ⟨d, hindex' ▸ hd, ?_⟩⟩
  rw [← htarget]
  exact List.mem_map_of_mem hr

/-- A step that is removed by the name that its command gave it, and again by its position. No snapshot can be had, so the
view still shows it. -/
theorem apply_removed_twice :
    let t : Setting := ⟨[], .standard, .zero, 0⟩
    let board := Board.blank "b" "board"
    let commands : List Command := [⟨.removeNode "a", none⟩, ⟨.removeNode "$2", none⟩,
      ⟨.addPlaceholder ⟨"Step", some "a", none, none, none⟩, none⟩]
    let refused : Nat → Option Refusal := fun _ => some ⟨.unavailable, "offline"⟩
    let run := (apply t board commands).run (Flaky.facility refused) (.ofBoard board)
    board.Keyed ∧ (∃ o, run.1.1.outcome? 0 = some o ∧ o.isApplied = true ∧ o.entity? = some "node-1") ∧
    (∀ shelf, run.2.memory.board.copy? shelf "node-1" = none) ∧
    ∃ o', run.1.1.outcome? 1 = some o' ∧ o'.isApplied = false := by
  intro t board commands refused
  have hkeyed : board.Keyed := by decide
  have hfirst : (((apply t board commands).run (Flaky.facility refused) (.ofBoard board)).1.1.outcome? 0).map (·.isApplied) =
      some true := by decide
  have htarget : (references t board commands).target "a" = "node-1" := by decide
  have hposition : (references t board commands).target "$2" = (references t board commands).target "a" := by decide
  have hall := apply_removed t hkeyed commands refused
  dsimp only at hall ⊢
  generalize (apply t board commands).run (Flaky.facility refused) (.ofBoard board) = run at hfirst hall ⊢
  obtain ⟨o, ho, happlied⟩ := Option.map_eq_some_iff.mp hfirst
  obtain ⟨hentity, hgone, hlater⟩ := hall 0 ⟨.removeNode "a", none⟩ "a" o rfl rfl ho happlied
  have hfails := hlater 1 ⟨.removeNode "$2", none⟩ Nat.zero_lt_one rfl ⟨"$2", List.mem_cons_self, hposition⟩
  rw [htarget] at hentity hgone
  exact ⟨hkeyed, ⟨o, ho, happlied, hentity⟩, hgone, hfails⟩

end Batch

end Workboard
