import Workboard.Proofs.Account
import Workboard.Proofs.Log

/-! What a batch asks a facility for.

`Session.exchanges` are the calls of a session with the facility's answers. Those of a batch come in turns, one for each
command (`Batch.apply_protocol`): a turn that makes a node is at most one call, and in any other the calls are told by what
the turns before it were answered and by its own answers (`Turn.expected`). -/

namespace Workboard

variable {α β σ : Type} {f : Facility σ}

def Call.isExecute : Call → Bool
  | execute _ => true
  | _ => false

/-- What a facility was asked, and what it answered. -/
inductive Exchange where
  | execute (m : Mutation) (answer : Except Refusal Receipt)
  | snapshot (answer : Except Refusal Board)
  | fence (point : SettlePoint) (answer : Bool)

namespace Exchange

def call : Exchange → Call
  | execute m _ => .execute m
  | snapshot _ => .snapshot
  | fence point _ => .fence point

/-- The receipt for a mutation that was accepted. -/
def receipt? : Exchange → Option Receipt
  | execute _ (.ok r) => some r
  | _ => none

/-- The board that was fetched. -/
def board? : Exchange → Option Board
  | snapshot (.ok b) => some b
  | _ => none

/-- Whether the board could not be had. -/
def isUnfetched : Exchange → Bool
  | snapshot (.error _) => true
  | _ => false

def IsFence (e : Exchange) : Prop := ∃ point answer, e = .fence point answer

/-- A mutation that is carried out fetches nothing. -/
theorem board?_execute (l : List Exchange) (m : Mutation) (answer : Except Refusal Receipt) :
    (l ++ [execute m answer]).findSome? (·.board?) = l.findSome? (·.board?) := by
  rw [List.findSome?_append]
  exact Option.or_none

theorem isUnfetched_execute (l : List Exchange) (m : Mutation) (answer : Except Refusal Receipt) :
    (l ++ [execute m answer]).any (·.isUnfetched) = l.any (·.isUnfetched) := by
  rw [List.any_append]
  exact Bool.or_false _

end Exchange

/-! ### Sessions -/

namespace Session

/-- The calls of a session in order, with their answers. -/
def exchanges (f : Facility σ) : Session α → σ → List Exchange
  | done _, _ => []
  | execute m next, s => .execute m (f.execute m s).1 :: (next (f.execute m s).1).exchanges f (f.execute m s).2
  | snapshot next, s => .snapshot (f.snapshot s).1 :: (next (f.snapshot s).1).exchanges f (f.snapshot s).2
  | fence point next, s => .fence point (f.fence point s).1 :: (next (f.fence point s).1).exchanges f (f.fence point s).2
  | wait _ next, s => next.exchanges f s

theorem exchanges_bind (x : Session α) (k : α → Session β) (f : Facility σ) (s : σ) :
    (x >>= k).exchanges f s = x.exchanges f s ++ (k (x.run f s).1).exchanges f (x.run f s).2 := by
  show (x.bind k).exchanges f s = _
  induction x generalizing s with
  | done a => rfl
  | execute m next ih => exact congrArg _ (ih _ _)
  | snapshot next ih => exact congrArg _ (ih _ _)
  | fence point next ih => exact congrArg _ (ih _ _)
  | wait t next ih => exact ih s

/-- The facility that keeps a list of its calls keeps those of the exchanges, and answers as it would otherwise. -/
theorem run_traced (x : Session α) (f : Facility σ) (l : List Call) (s : σ) :
    x.run f.traced (l, s) = ((x.run f s).1, ((x.exchanges f s).map (·.call)).reverse ++ l, (x.run f s).2) := by
  have hcons (e : Exchange) (r : List Exchange) : ((e :: r).map (·.call)).reverse ++ l = (r.map (·.call)).reverse ++ e.call :: l := by
    simp
  induction x generalizing l s with
  | done a => rfl
  | execute m next ih =>
    rw [exchanges, hcons]
    exact ih _ _ _ (fun e r => by simp)
  | snapshot next ih =>
    rw [exchanges, hcons]
    exact ih _ _ _ (fun e r => by simp)
  | fence point next ih =>
    rw [exchanges, hcons]
    exact ih _ _ _ (fun e r => by simp)
  | wait t next ih => exact ih l s hcons

theorem exchanges_settle (pauses : Pauses) (point : SettlePoint) (f : Facility σ) (s : σ) :
    (settle pauses point).exchanges f s = [.fence point (f.fence point s).1] := by
  show _ :: (if _ then _ else _ : Session Unit).exchanges f _ = _
  split <;> rfl

end Session

/-! ### Turns -/

/-- What was exchanged for one command. -/
structure Turn where
  item : Item
  exchanges : List Exchange

/-- What a batch knows when a turn comes. -/
structure Known where
  refs : References
  view : Board

namespace Turn

def calls (x : Turn) : List Call := x.exchanges.map (·.call)

def receipt? (x : Turn) : Option Receipt := x.exchanges.findSome? (·.receipt?)

/-- Whether the facility has carried out the command's mutation. -/
def isApplied (x : Turn) : Bool := x.receipt?.isSome

/-- The node that was made. -/
def node? (x : Turn) : Option Node := x.receipt?.bind (·.node?)

def board? (x : Turn) : Option Board := x.exchanges.findSome? (·.board?)

def isUnfetched (x : Turn) : Bool := x.exchanges.any (·.isUnfetched)

/-- Waiting answers none of this. -/
theorem of_fences (i : Item) {before : List Exchange} (between : List Exchange) {after : List Exchange}
    (hbefore : ∀ e ∈ before, e.IsFence) (hafter : ∀ e ∈ after, e.IsFence) :
    (⟨i, before ++ (between ++ after)⟩ : Turn).receipt? = (⟨i, between⟩ : Turn).receipt? ∧
      (⟨i, before ++ (between ++ after)⟩ : Turn).board? = (⟨i, between⟩ : Turn).board? ∧
      (⟨i, before ++ (between ++ after)⟩ : Turn).isUnfetched = (⟨i, between⟩ : Turn).isUnfetched := by
  have hnone {l : List Exchange} (hl : ∀ e ∈ l, e.IsFence) :
      l.findSome? (·.receipt?) = none ∧ l.findSome? (·.board?) = none ∧ l.any (·.isUnfetched) = false := by
    refine ⟨List.findSome?_eq_none_iff.mpr fun e he => ?_, List.findSome?_eq_none_iff.mpr fun e he => ?_,
      List.any_eq_false.mpr fun e he => ?_⟩
    all_goals
      obtain ⟨point, answer, rfl⟩ := hl e he
      simp [Exchange.receipt?, Exchange.board?, Exchange.isUnfetched]
  obtain ⟨hbreceipt, hbboard, hbunfetched⟩ := hnone hbefore
  obtain ⟨hareceipt, haboard, haunfetched⟩ := hnone hafter
  simp only [receipt?, board?, isUnfetched, List.findSome?_append, List.any_append, hbreceipt, hbboard, hbunfetched,
    hareceipt, haboard, haunfetched, Option.none_or, Option.or_none, Bool.false_or, Bool.or_false, and_self]

/-- How many mutations a turn has asked for. -/
def executions (x : Turn) : Nat := x.calls.countP (·.isExecute)

end Turn

namespace Known

def start (b : Board) : Known := ⟨.seed b, b⟩

/-- Takes in the node that a turn has made. -/
def make (k : Known) (x : Turn) : Known :=
  match x.node? with
  | some n => ⟨(k.refs.register n x.item.command.action.ref? x.item.index).1, { k.view with nodes := k.view.nodes.insert n.id n }⟩
  | none => k

/-- Takes in the board that a turn has fetched. -/
def fetch (k : Known) (x : Turn) : Known := { k with view := x.board?.getD k.view }

end Known

namespace Action

/-- Whether an action sets a pin's value, for which it needs the node as it is now. -/
def setsPin : Action → Bool
  | updateNodePin .. => true
  | _ => false

def connects : Action → Bool
  | connectPins _ => true
  | _ => false

end Action

/-- The calls of a turn that makes no node: waiting for the turn before it, fetching the board if it is needed or may have
    changed, the mutation that the command stands for on the board as it is known, and waiting for new connections. -/
def Turn.expected (t : Occasion) (first outdated : Bool) (k : Known) (x : Turn) : List Call :=
  let a := x.item.command.action
  (if first then [] else [.fence .betweenCommands]) ++
  (if a.setsPin || outdated then [.snapshot] else []) ++
  (if a.setsPin && x.isUnfetched then []
    else
      match a.mutation k.refs (k.fetch x).view t.now with
      | .ok m => [.execute m]
      | .error _ => []) ++
  (if a.connects && x.isApplied then [.fence .afterConnect] else [])

/-! ### What can be made -/

/-- Pins that a placeholder can have, beside those whose names are taken: each has a name of its own, and its direction,
    type and container are known words. -/
def Placeholder.Valid (taken : List String) : List PinRequest → Prop
  | [] => True
  | r :: rest =>
    (Text.isAllBlank r.name = false ∧ r.name ∉ taken ∧ (Direction.ofLoose? r.direction).isSome ∧
      (DataType.ofLoose? r.dataType).isSome ∧ ∀ raw ∈ r.container, (Container.ofLoose? raw).isSome) ∧
    Valid (taken ++ [r.name]) rest

/-- Whether an action makes a node: its type is in the catalog, up to case, or its pins are valid, and the layer that it
    names is on the board. -/
def Action.Makeable (c : Catalog) (b : Board) : Action → Prop
  | addNode r => (∃ n ∈ c, Text.asciiLower n.name = Text.asciiLower (Text.trim r.nodeType)) ∧
      ∀ layer ∈ r.layer, b.layers.contains layer = true
  | addPlaceholder r => Placeholder.Valid ["exec_in", "exec_out"] (r.pins.getD []) ∧
      ∀ layer ∈ r.layer, b.layers.contains layer = true
  | _ => False

theorem exists_bind_eq_ok {ε α β : Type} {x : Except ε α} {f : α → Except ε β} :
    (∃ y, (x >>= f) = .ok y) ↔ ∃ a, x = .ok a ∧ ∃ y, f a = .ok y := by
  constructor
  · rintro ⟨y, h⟩
    obtain ⟨a, ha, hy⟩ := bind_eq_ok h
    exact ⟨a, ha, y, hy⟩
  · rintro ⟨a, rfl, y, hy⟩
    exact ⟨y, hy⟩

theorem Placeholder.exists_pin {pins : KeyMap Pin} {r : PinRequest} :
    (∃ p, pin pins r = .ok p) ↔ Text.isAllBlank r.name = false ∧ pins.contains r.name = false ∧
      (Direction.ofLoose? r.direction).isSome ∧ (DataType.ofLoose? r.dataType).isSome ∧
      ∀ raw ∈ r.container, (Container.ofLoose? raw).isSome := by
  unfold pin
  cases Text.isAllBlank r.name with
  | true => simp
  | false =>
    cases pins.contains r.name with
    | true => simp
    | false =>
      cases Direction.ofLoose? r.direction <;> cases DataType.ofLoose? r.dataType <;> cases r.container with
      | none => simp [need, bind, Except.bind, pure, Except.pure]
      | some raw => cases h : Container.ofLoose? raw <;> simp [need, h, bind, Except.bind, pure, Except.pure]

theorem Placeholder.exists_addPins {pins : KeyMap Pin} {taken : List String} {requests : List PinRequest}
    (h : ∀ name, pins.contains name = true ↔ name ∈ taken) :
    (∃ m, addPins pins requests = .ok m) ↔ Valid taken requests := by
  induction requests generalizing pins taken with
  | nil => simp [addPins, Valid]
  | cons r rest ih =>
    have hfree : pins.contains r.name = false ↔ r.name ∉ taken := by
      rw [← h, Bool.not_eq_true]
    have hrest (p : Pin) : (∃ m, addPins (pins.insert r.name p) rest = .ok m) ↔ Valid (taken ++ [r.name]) rest :=
      ih fun name => by
        rw [KeyMap.contains_insert, Bool.or_eq_true, decide_eq_true_iff, h, List.mem_append, List.mem_singleton, or_comm,
          eq_comm]
    rw [addPins, exists_bind_eq_ok]
    simp only [hrest, exists_and_right]
    rw [exists_pin, hfree, Valid]

theorem Placeholder.exists_node (name : String) {requests : List PinRequest} :
    (∃ n, node name requests = .ok n) ↔ Valid ["exec_in", "exec_out"] requests := by
  have hown (x : String) : (KeyMap.ofList (ownPins.map fun p => (p.id, p))).contains x = true ↔ x ∈ ["exec_in", "exec_out"] := by
    have hcontains : (KeyMap.ofList (ownPins.map fun p => (p.id, p))).contains x =
        (decide ("exec_out" = x) || (decide ("exec_in" = x) || false)) := by
      simp only [ownPins, plainPin, List.map_cons, List.map_nil, KeyMap.ofList, List.foldl_cons, List.foldl_nil,
        KeyMap.contains_insert]
      rfl
    rw [hcontains, Bool.or_eq_true, Bool.or_false, decide_eq_true_iff, decide_eq_true_iff, List.mem_cons, List.mem_singleton,
      or_comm, eq_comm (a := x), eq_comm (a := x)]
  rw [← exists_addPins hown, node, exists_bind_eq_ok]
  exact exists_congr fun pins => and_iff_left ⟨_, rfl⟩

theorem NodeRequest.exists_template {r : NodeRequest} {c : Catalog} :
    (∃ n, r.template c = .ok n) ↔ ∃ n ∈ c, Text.asciiLower n.name = Text.asciiLower (Text.trim r.nodeType) := by
  have hfind : (∃ n, c.find? r.nodeType = some n) ↔
      ∃ n ∈ c, Text.asciiLower n.name = Text.asciiLower (Text.trim r.nodeType) := by
    unfold Catalog.find?
    dsimp only
    split
    · rename_i n hn
      have hname : n.name = Text.trim r.nodeType := by simpa using List.find?_some hn
      exact ⟨fun _ => ⟨n, List.mem_of_find?_eq_some hn, by rw [hname]⟩, fun _ => ⟨n, rfl⟩⟩
    · rw [← Option.isSome_iff_exists, List.find?_isSome]
      simp
  rw [← hfind, template]
  cases c.find? r.nodeType with
  | none => simp
  | some n =>
    cases r.friendlyName.filter fun s => !Text.isAllBlank s <;> simp

theorem Board.exists_viewLayer? {b : Board} {layer : Option String} :
    (∃ u, b.viewLayer? layer = .ok u) ↔ ∀ id ∈ layer, b.layers.contains id = true := by
  cases layer with
  | none => simp [viewLayer?]
  | some id =>
    simp only [viewLayer?, viewLayer, layer?, KeyMap.contains, Option.mem_def, Option.some.injEq, forall_eq']
    cases b.layers.get? id <;> simp [Except.map]

theorem Action.exists_creation {a : Action} {c : Catalog} {b : Board} :
    (∃ made, a.creation c b = .ok made) ↔ a.Makeable c b := by
  cases a with
  | addNode r =>
    rw [Makeable, ← NodeRequest.exists_template, ← Board.exists_viewLayer?]
    constructor
    · rintro ⟨made, h⟩
      obtain ⟨n, hn, h⟩ := bind_eq_ok h
      obtain ⟨_, hpure, h⟩ := bind_eq_ok h
      cases hpure
      obtain ⟨u, hu, -⟩ := bind_eq_ok h
      exact ⟨⟨n, hn⟩, u, hu⟩
    · rintro ⟨⟨n, hn⟩, u, hu⟩
      refine ⟨⟨n, r.ref, r.spot, r.layer⟩, ?_⟩
      simp only [creation, hn, hu, bind, Except.bind, pure, Except.pure]
  | addPlaceholder r =>
    rw [Makeable, ← Placeholder.exists_node r.name, ← Board.exists_viewLayer?]
    constructor
    · rintro ⟨made, h⟩
      obtain ⟨n, hn, h⟩ := bind_eq_ok h
      obtain ⟨_, hpure, h⟩ := bind_eq_ok h
      cases hpure
      obtain ⟨u, hu, -⟩ := bind_eq_ok h
      exact ⟨⟨n, hn⟩, u, hu⟩
    · rintro ⟨⟨n, hn⟩, u, hu⟩
      refine ⟨⟨n, r.ref, r.spot, r.layer⟩, ?_⟩
      simp only [creation, hn, hu, bind, Except.bind, pure, Except.pure]
  | _ => simp [creation, Makeable, bind, Except.bind]

namespace Batch

variable {t : Occasion} {s : Progress} {i : Item} {m : σ}

/-! ### Carrying out -/

theorem needsFresh_eq (outdated : Bool) (a : Action) : needsFresh outdated a = (a.setsPin || outdated) := by
  cases a <;> rfl

/-- The exchanges of an item between the fences. -/
structure Carried (t : Occasion) (outdated : Bool) (s : Progress) (x : Turn) (s' : Progress) : Prop where
  calls : x.calls =
    (if x.item.command.action.setsPin || outdated then [.snapshot] else []) ++
    (if x.item.command.action.setsPin && x.isUnfetched then []
      else
        match x.item.command.action.mutation s.refs (x.board?.getD s.view) t.now with
        | .ok m => [.execute m]
        | .error _ => [])
  refs : s'.refs = s.refs
  view : s'.view = x.board?.getD s.view
  outcomes : s'.outcomes.map (·.isApplied) = s.outcomes.map (·.isApplied) ++ [x.isApplied]

theorem exchanges_perform (t : Occasion) (s : Progress) (i : Item) (f : Facility σ) (m : σ) :
    (∃ e, i.command.action.mutation s.refs s.view t.now = .error e ∧ (perform t s i).exchanges f m = [] ∧
      ((perform t s i).run f m).1 = s.failed i e) ∨
    ∃ mutation, i.command.action.mutation s.refs s.view t.now = .ok mutation ∧
      ((∃ e e', (perform t s i).exchanges f m = [.execute mutation (.error e)] ∧
        ((perform t s i).run f m).1 = s.failed i e') ∨
      ∃ r, (perform t s i).exchanges f m = [.execute mutation (.ok r)] ∧
        ((perform t s i).run f m).1 = s.applied i r.id) := by
  unfold perform
  cases i.command.action.mutation s.refs s.view t.now with
  | error e => exact Or.inl ⟨e, rfl, rfl, rfl⟩
  | ok mutation =>
    refine Or.inr ⟨mutation, rfl, ?_⟩
    simp only [Session.exchanges, Session.run]
    rcases (f.execute mutation m).1 with e | r
    · exact Or.inl ⟨e, _, rfl, rfl⟩
    · exact Or.inr ⟨r, rfl, rfl⟩

theorem lastApplied_eq (s : Progress) : s.lastApplied = (s.outcomes.map (·.isApplied)).getLast?.getD false := by
  rw [Progress.lastApplied, List.getLast?_map]
  cases s.outcomes.getLast? <;> rfl

theorem map_isApplied_failed (s : Progress) (i : Item) (e : ApplyError) :
    (s.failed i e).outcomes.map (·.isApplied) = s.outcomes.map (·.isApplied) ++ [false] := List.map_append

theorem map_isApplied_applied (s : Progress) (i : Item) (entity : String) :
    (s.applied i entity).outcomes.map (·.isApplied) = s.outcomes.map (·.isApplied) ++ [true] := List.map_append

/-- An item that is carried out on the view that it finds, or on the one that it has fetched before. -/
theorem carried_perform {outdated : Bool} {s' : Progress} (fetched : List Exchange)
    (hcalls : fetched.map (·.call) = if i.command.action.setsPin || outdated then [.snapshot] else [])
    (hgranted : (i.command.action.setsPin && fetched.any (·.isUnfetched)) = false)
    (hreceipt : fetched.findSome? (·.receipt?) = none)
    (hs' : s' = { s with view := (fetched.findSome? (·.board?)).getD s.view }) (f : Facility σ) (m : σ) :
    Carried t outdated s ⟨i, fetched ++ (perform t s' i).exchanges f m⟩ ((perform t s' i).run f m).1 := by
  have hview : s'.view = (fetched.findSome? (·.board?)).getD s.view := by rw [hs']
  have hrefs : s'.refs = s.refs := by rw [hs']
  have houtcomes : s'.outcomes = s.outcomes := by rw [hs']
  rcases exchanges_perform t s' i f m with ⟨e, hm, hex, hrun⟩ | ⟨mutation, hm, hanswer⟩
  · rw [hrefs, hview] at hm
    rw [hex, hrun, List.append_nil]
    refine ⟨?_, hrefs, hview, ?_⟩
    · simp [Turn.calls, Turn.board?, Turn.isUnfetched, hcalls, hm, hgranted]
    · rw [map_isApplied_failed, houtcomes, Turn.isApplied, Turn.receipt?, hreceipt]
      rfl
  · rw [hrefs, hview] at hm
    have hall (answer : Except Refusal Receipt) : (fetched ++ [Exchange.execute mutation answer]).map (·.call) =
        (if i.command.action.setsPin || outdated then [.snapshot] else []) ++
        (if i.command.action.setsPin && (fetched ++ [Exchange.execute mutation answer]).any (·.isUnfetched) then []
          else
            match i.command.action.mutation s.refs
              (((fetched ++ [Exchange.execute mutation answer]).findSome? (·.board?)).getD s.view) t.now with
            | .ok m => [.execute m]
            | .error _ => []) := by
      rw [Exchange.board?_execute, Exchange.isUnfetched_execute, hm, hgranted, List.map_append, hcalls]
      rfl
    rcases hanswer with ⟨e, e', hex, hrun⟩ | ⟨r, hex, hrun⟩
    · rw [hex, hrun]
      refine ⟨hall _, hrefs, ?_, ?_⟩
      · rw [Turn.board?, Exchange.board?_execute]
        exact hview
      · rw [map_isApplied_failed, houtcomes, Turn.isApplied, Turn.receipt?, List.findSome?_append, hreceipt]
        rfl
    · rw [hex, hrun]
      refine ⟨hall _, hrefs, ?_, ?_⟩
      · rw [Turn.board?, Exchange.board?_execute]
        exact hview
      · rw [map_isApplied_applied, houtcomes, Turn.isApplied, Turn.receipt?, List.findSome?_append, hreceipt]
        rfl

theorem exchanges_refresh (s : Progress) (i : Item) (f : Facility σ) (m : σ) :
    (refresh s i).exchanges f m = [.snapshot (f.snapshot m).1] := by
  simp only [refresh, Session.exchanges]
  rcases (f.snapshot m).1 with e | view
  · cases i.command.action <;> rfl
  · rfl

theorem fst_run_refresh (s : Progress) (i : Item) (f : Facility σ) (m : σ) :
    ((refresh s i).run f m).1 =
      match (f.snapshot m).1 with
      | .ok view => .ok { s with view }
      | .error r => if i.command.action.setsPin then .error (.refused r) else .ok s := by
  simp only [refresh, Session.run]
  rcases (f.snapshot m).1 with e | view
  · cases i.command.action <;> rfl
  · rfl

/-- An item that needs a fresh view fetches it first, and gives up if it sets a pin's value and has none. -/
theorem carried_carryOut (t : Occasion) (outdated : Bool) (s : Progress) (i : Item) (f : Facility σ) (m : σ) :
    Carried t outdated s ⟨i, (carryOut t outdated s i).exchanges f m⟩ ((carryOut t outdated s i).run f m).1 := by
  unfold carryOut
  rw [needsFresh_eq]
  cases hneeds : i.command.action.setsPin || outdated with
  | false =>
    have hset := (Bool.or_eq_false_iff.mp hneeds).1
    exact carried_perform [] (by rw [hneeds]; rfl) (by rw [hset]; rfl) rfl rfl f m
  | true =>
    rw [if_pos rfl, Session.exchanges_bind, Session.run_bind, exchanges_refresh, fst_run_refresh]
    cases hanswer : (f.snapshot m).1 with
    | ok view => exact carried_perform [_] (by rw [hneeds]; rfl) (Bool.and_false _) rfl rfl f _
    | error e =>
      cases hset : i.command.action.setsPin with
      | true =>
        refine ⟨?_, rfl, rfl, map_isApplied_failed s i _⟩
        simp only [hset]
        rfl
      | false => exact carried_perform [_] (by rw [hneeds]; rfl) (by rw [hset]; rfl) rfl rfl f _

/-- Turns that make no node, each after those before it. -/
def Follows (t : Occasion) : Bool → Bool → Known → List Turn → Prop
  | _, _, _, [] => True
  | first, outdated, k, x :: r =>
    x.calls = x.expected t first outdated k ∧ Follows t false (outdated || x.isApplied) (k.fetch x) r

theorem exchanges_settleConnection (t : Occasion) (i : Item) (f : Facility σ) (m : σ) :
    (settleConnection t i).exchanges f m =
      if i.command.action.connects then [.fence .afterConnect (f.fence .afterConnect m).1] else [] := by
  unfold settleConnection
  cases i.command.action with
  | connectPins w => exact Session.exchanges_settle _ _ f m
  | _ => rfl

/-- Behind an item that was applied there may be a fence; then the others follow. -/
theorem exchanges_carryOutFirst {outdated : Bool} {s s' : Progress} {i : Item} {m m' : σ}
    (h : (carryOut t outdated s i).run f m = (s', m')) (r : List Item) :
    ∃ after m'', (∀ e ∈ after, e.IsFence) ∧
      after.map (·.call) = (if i.command.action.connects && s'.lastApplied then [.fence .afterConnect] else []) ∧
      (carryOutFirst t outdated s i r).exchanges f m = (carryOut t outdated s i).exchanges f m ++
        (after ++ (carryOutAll t (outdated || s'.lastApplied) s' r).exchanges f m'') ∧
      ((carryOutFirst t outdated s i r).run f m).1 =
        ((carryOutAll t (outdated || s'.lastApplied) s' r).run f m'').1 := by
  rw [carryOutFirst, Session.exchanges_bind, Session.run_bind, h]
  cases s'.lastApplied with
  | false => exact ⟨[], m', by simp, by simp, by simp, by simp⟩
  | true =>
    simp only [if_true, Session.exchanges_bind, Session.run_bind, exchanges_settleConnection, Bool.or_true, Bool.and_true]
    refine ⟨_, _, ?_, ?_, rfl, rfl⟩
    · split
      · exact List.forall_mem_singleton.mpr ⟨_, _, rfl⟩
      · exact List.forall_mem_nil _
    · split <;> rfl

/-- What is exchanged for the items that make no node, and what comes of them. -/
structure Dealt (t : Occasion) (outdated : Bool) (s : Progress) (k : Known) (items : List Item) (turns : List Turn)
    (exchanges : List Exchange) (s' : Progress) : Prop where
  items : turns.map (·.item) = items
  exchanges : exchanges = turns.flatMap (·.exchanges)
  follows : Follows t s.outcomes.isEmpty outdated k turns
  outcomes : s'.outcomes.map (·.isApplied) = s.outcomes.map (·.isApplied) ++ turns.map (·.isApplied)

theorem dealt_carryOutAll (t : Occasion) (items : List Item) (outdated : Bool) {k : Known} (hrefs : s.refs = k.refs)
    (hview : s.view = k.view) (f : Facility σ) (m : σ) :
    ∃ turns, Dealt t outdated s k items turns ((carryOutAll t outdated s items).exchanges f m)
      ((carryOutAll t outdated s items).run f m).1 := by
  induction items generalizing outdated s k m with
  | nil => exact ⟨[], rfl, rfl, trivial, (List.append_nil _).symm⟩
  | cons i r ih =>
    -- In front of the item there may be a fence.
    obtain ⟨before, m₁, hfence, hbefore, hex, hrun⟩ : ∃ before m₁, (∀ e ∈ before, e.IsFence) ∧
        before.map (·.call) = (if s.outcomes.isEmpty then [] else [.fence .betweenCommands]) ∧
        (carryOutAll t outdated s (i :: r)).exchanges f m = before ++ (carryOutFirst t outdated s i r).exchanges f m₁ ∧
        ((carryOutAll t outdated s (i :: r)).run f m).1 = ((carryOutFirst t outdated s i r).run f m₁).1 := by
      rw [carryOutAll_cons]
      cases s.outcomes.isEmpty with
      | true => exact ⟨[], m, by simp, rfl, rfl, rfl⟩
      | false =>
        simp only [Bool.false_eq_true, if_false, Session.exchanges_bind, Session.run_bind, Session.exchanges_settle]
        exact ⟨_, _, List.forall_mem_singleton.mpr ⟨_, _, rfl⟩, rfl, rfl, rfl⟩
    have hcarried := carried_carryOut t outdated s i f m₁
    cases hone : (carryOut t outdated s i).run f m₁ with | mk s' m₂ =>
    rw [hone] at hcarried
    obtain ⟨after, m₃, hfence', hafter, hex', hrun'⟩ := exchanges_carryOutFirst hone r
    obtain ⟨hreceipt, hboard, hunfetched⟩ := Turn.of_fences i ((carryOut t outdated s i).exchanges f m₁) hfence hfence'
    generalize (carryOut t outdated s i).exchanges f m₁ = between at hcarried hex' hreceipt hboard hunfetched
    have happlied : (⟨i, before ++ (between ++ after)⟩ : Turn).isApplied = (⟨i, between⟩ : Turn).isApplied := by
      rw [Turn.isApplied, hreceipt, Turn.isApplied]
    have hlast : s'.lastApplied = (⟨i, between⟩ : Turn).isApplied := by
      rw [lastApplied_eq, hcarried.outcomes, List.getLast?_concat]
      rfl
    have hfetch : k.fetch ⟨i, before ++ (between ++ after)⟩ = k.fetch ⟨i, between⟩ := by
      rw [Known.fetch, Known.fetch, hboard]
    obtain ⟨turns, hturns⟩ := ih (outdated || s'.lastApplied) (s := s') (k := k.fetch ⟨i, between⟩)
      (hcarried.refs.trans hrefs) (hcarried.view.trans (by rw [hview]; rfl)) m₃
    refine ⟨⟨i, before ++ (between ++ after)⟩ :: turns, ?_, ?_, ⟨?_, ?_⟩, ?_⟩
    · rw [List.map_cons, hturns.items]
    · rw [hex, hex', hturns.exchanges, List.flatMap_cons]
      simp only [List.append_assoc]
    · have hcalls := hcarried.calls
      rw [hrefs, hview] at hcalls
      simp only [Turn.expected, hfetch, hunfetched, happlied]
      simp only [Turn.calls, List.map_append] at hcalls ⊢
      rw [hbefore, hafter, hcalls, hlast]
      simp only [List.append_assoc]
      rfl
    · rw [hfetch, happlied, ← hlast]
      have hnonempty : s'.outcomes.isEmpty = false := by
        have houtcomes := hcarried.outcomes
        cases hs : s'.outcomes with
        | nil => simp [hs] at houtcomes
        | cons o l => rfl
      rw [← hnonempty]
      exact hturns.follows
    · rw [hrun, hrun', hturns.outcomes, hcarried.outcomes, List.map_cons, happlied, List.append_assoc]
      rfl

/-- The calls of a turn are told by the turns before it. -/
theorem Follows.calls {first outdated : Bool} {k : Known} {turns : List Turn} (h : Follows t first outdated k turns)
    {l r : List Turn} {x : Turn} (hsplit : turns = l ++ x :: r) :
    x.calls = x.expected t (first && l.isEmpty) (outdated || l.any (·.isApplied)) (l.foldl .fetch k) := by
  induction l generalizing first outdated k turns with
  | nil =>
    subst hsplit
    rw [List.isEmpty_nil, Bool.and_true, List.any_nil, Bool.or_false]
    exact h.1
  | cons y l ih =>
    subst hsplit
    have hrest := ih h.2 rfl
    rw [Bool.false_and, Bool.or_assoc] at hrest
    rwa [List.isEmpty_cons, Bool.and_false, List.any_cons]

/-! ### Making nodes -/

/-- The call of a turn that makes a node. -/
def makingCalls (t : Occasion) (b : Board) (cell : Spot) (order : List String) (i : Item) : List Call :=
  match i.command.action.creation t.catalog b with
  | .ok c => [.execute (.addNode { c.template with place := (c.spot.getD cell).place 0 } c.layer order)]
  | .error _ => []

/-- Of a view an action that makes a node reads the layers only. -/
theorem creation_congr {view view' : Board} (h : view.layers = view'.layers) (a : Action) (c : Catalog) :
    a.creation c view = a.creation c view' := by
  have hlayer (layer : Option String) : view.viewLayer? layer = view'.viewLayer? layer := by
    cases layer with
    | none => rfl
    | some id => simp only [Board.viewLayer?, Board.viewLayer, Board.layer?, h]
  simp only [Action.creation, hlayer]

/-- What is exchanged for the items that make nodes, and what comes of them. -/
structure Made (t : Occasion) (b : Board) (start : Spot) (n : Nat) (s : Progress) (k : Known) (items : List Item)
    (turns : List Turn) (exchanges : List Exchange) (s' : Progress) : Prop where
  items : turns.map (·.item) = items
  exchanges : exchanges = turns.flatMap (·.exchanges)
  calls : ∀ l x r, turns = l ++ x :: r → x.calls = 
    makingCalls t b (t.grid.cell start (n + l.length)) (t.pinOrder (n + l.length)) x.item
  refs : s'.refs = (turns.foldl .make k).refs
  view : s'.view = (turns.foldl .make k).view
  outcomes : s'.outcomes.map (·.isApplied) = s.outcomes.map (·.isApplied) ++ turns.map (·.node?.isSome)

theorem made_create {b : Board} {k : Known} (hlayers : s.view.layers = b.layers) (hrefs : s.refs = k.refs)
    (hview : s.view = k.view) (cell : Spot) (order : List String) (i : Item) (f : Facility σ) (m : σ) {x : Turn}
    (hx : x = ⟨i, (create t s cell order i).exchanges f m⟩) {s' : Progress}
    (hs' : s' = ((create t s cell order i).run f m).1) :
    x.calls = makingCalls t b cell order i ∧ s'.refs = (k.make x).refs ∧ s'.view = (k.make x).view ∧
      s'.view.layers = b.layers ∧ s'.outcomes.map (·.isApplied) = s.outcomes.map (·.isApplied) ++ [x.node?.isSome] := by
  -- All failures are recorded alike: nothing becomes known by them.
  have hfailed (e : ApplyError) (hnode : x.node? = none) (hs' : s' = s.failed i e) :
      s'.refs = (k.make x).refs ∧ s'.view = (k.make x).view ∧ s'.view.layers = b.layers ∧
        s'.outcomes.map (·.isApplied) = s.outcomes.map (·.isApplied) ++ [x.node?.isSome] := by
    rw [hs', Known.make, hnode]
    exact ⟨hrefs, hview, hlayers, map_isApplied_failed s i e⟩
  rw [create] at hx hs'
  rw [makingCalls, ← creation_congr hlayers]
  cases hc : i.command.action.creation t.catalog s.view with
  | error e =>
    rw [hc] at hx hs'
    exact ⟨by rw [hx]; rfl, hfailed e (by rw [hx]; rfl) hs'⟩
  | ok c =>
    rw [hc] at hx hs'
    simp only [Session.exchanges, Session.run] at hx hs'
    generalize hmutation : Mutation.addNode { c.template with place := (c.spot.getD cell).place 0 } c.layer order = mutation
      at hx hs' ⊢
    cases hanswer : (f.execute mutation m).1 with
    | error r =>
      simp only [hanswer] at hx hs'
      exact ⟨by rw [hx, ← hmutation]; rfl, hfailed _ (by rw [hx]; rfl) hs'⟩
    | ok receipt =>
      simp only [hanswer] at hx hs'
      cases hnode : receipt.node? with
      | none =>
        simp only [hnode] at hx hs'
        exact ⟨by rw [hx, ← hmutation]; rfl, hfailed _ (by rw [hx]; exact hnode) hs'⟩
      | some n =>
        simp only [hnode] at hx hs'
        have hmade : x.node? = some n := by
          rw [hx]
          exact hnode
        have hitem : x.item = i := by rw [hx]
        refine ⟨by rw [hx, ← hmutation]; rfl, ?_⟩
        rw [hs', Known.make, hmade, hitem, Action.ref_creation hc, ← hrefs, ← hview]
        exact ⟨rfl, rfl, hlayers, map_isApplied_applied s i n.id⟩

theorem made_createAll {b : Board} (t : Occasion) (start : Spot) (items : List Item) (n : Nat) {k : Known}
    (hlayers : s.view.layers = b.layers) (hrefs : s.refs = k.refs) (hview : s.view = k.view) (f : Facility σ) (m : σ) :
    ∃ turns, Made t b start n s k items turns ((createAll t start n s items).exchanges f m)
      ((createAll t start n s items).run f m).1 := by
  induction items generalizing n s k m with
  | nil => exact ⟨[], rfl, rfl, by simp, hrefs, hview, (List.append_nil _).symm⟩
  | cons i r ih =>
    rw [createAll, Session.exchanges_bind, Session.run_bind]
    obtain ⟨hcalls, hrefs', hview', hlayers', houtcomes⟩ :=
      made_create hlayers hrefs hview (t.grid.cell start n) (t.pinOrder n) i f m rfl rfl
    obtain ⟨turns, hturns⟩ := ih (n + 1) hlayers' hrefs' hview' _
    refine ⟨_ :: turns, ?_, ?_, fun l x r hsplit => ?_, hturns.refs, hturns.view, ?_⟩
    · rw [List.map_cons, hturns.items]
    · rw [hturns.exchanges, List.flatMap_cons]
    · cases l with
      | nil =>
        obtain ⟨rfl, -⟩ := List.cons.inj hsplit
        exact hcalls
      | cons y l =>
        obtain ⟨-, hsplit⟩ := List.cons.inj hsplit
        have hnumber : n + 1 + l.length = n + (l.length + 1) := by omega
        rw [hturns.calls l x r hsplit, List.length_cons, hnumber]
    · rw [hturns.outcomes, houtcomes, List.map_cons, List.append_assoc]
      rfl

/-! ### Whole batches -/

theorem executions_le_of_making {b : Board} {cell : Spot} {order : List String} {i : Item} {x : Turn}
    (hx : x.calls = makingCalls t b cell order i) : x.executions ≤ 1 := by
  rw [Turn.executions, hx, makingCalls]
  split <;> simp [Call.isExecute]

theorem executions_le_of_expected {first outdated : Bool} {k : Known} {x : Turn} (hx : x.calls = x.expected t first outdated k) :
    x.executions ≤ 1 := by
  have hwaiting {c : Bool} {l : List Call} (hl : ∀ call ∈ l, call.isExecute = false) :
      (if c then l else []).countP (·.isExecute) = 0 ∧ (if c then [] else l).countP (·.isExecute) = 0 := by
    have hzero : l.countP (·.isExecute) = 0 := List.countP_eq_zero.mpr fun call hcall => by simp [hl call hcall]
    cases c with
    | true => exact ⟨hzero, rfl⟩
    | false => exact ⟨rfl, hzero⟩
  rw [Turn.executions, hx, Turn.expected, List.countP_append, List.countP_append, List.countP_append,
    (hwaiting (by simp [Call.isExecute])).1, (hwaiting (by simp [Call.isExecute])).1,
    (hwaiting (by simp [Call.isExecute])).2]
  split
  · simp
  · split <;> simp [Call.isExecute]

theorem calls_of_makeable {b : Board} {cell : Spot} {order : List String} {i : Item} {x : Turn}
    (hx : x.calls = makingCalls t b cell order i) :
    (i.command.action.Makeable t.catalog b → ∃ c, i.command.action.creation t.catalog b = .ok c ∧
      x.calls = [.execute (.addNode { c.template with place := (c.spot.getD cell).place 0 } c.layer order)]) ∧
    (¬ i.command.action.Makeable t.catalog b → x.calls = []) := by
  rw [hx, makingCalls, ← Action.exists_creation]
  cases i.command.action.creation t.catalog b with
  | error e => simp
  | ok c => simp

/-- The calls of a batch come in turns. Those of the commands that make nodes are first, in the order of the batch: one that
    can be made on the board is one call to add a node, at the cell of its number if it names no spot and with its pins in
    the order of its number, and any other is no call. Then come the other commands in the order of the batch. In front of
    all but the very first command there is a fence, then the board is fetched exactly if the command sets a pin's value or
    one of these turns before was applied. The mutation that the command stands for is carried out exactly if there is one
    and the board was not refused to a command that sets a pin's value; references and board are those that the turns so far
    have told. Behind pins that were connected there is a fence. No command is carried out twice. An outcome is applied as
    the turn of its command was answered. -/
theorem apply_protocol (t : Occasion) (b : Board) (commands : List Command) (f : Facility σ) (m : σ) :
    ∃ made rest : List Turn,
      made.map (·.item) = (items commands).filter (·.command.createsNode) ∧
      rest.map (·.item) = (items commands).filter (!·.command.createsNode) ∧
      (apply t b commands).exchanges f m = (made ++ rest).flatMap (·.exchanges) ∧
      (∀ l x r, made = l ++ x :: r →
        (x.item.command.action.Makeable t.catalog b → ∃ c, x.item.command.action.creation t.catalog b = .ok c ∧
          x.calls = [.execute (.addNode
            { c.template with place := (c.spot.getD (t.grid.cell (t.grid.start b) l.length)).place 0 } c.layer
            (t.pinOrder l.length))]) ∧
        (¬ x.item.command.action.Makeable t.catalog b → x.calls = [])) ∧
      (∀ l x r, rest = l ++ x :: r →
        x.calls = x.expected t (made.isEmpty && l.isEmpty) (l.any (·.isApplied)) (l.foldl .fetch (made.foldl .make (.start b)))) ∧
      (∀ x ∈ made ++ rest, x.executions ≤ 1) ∧
      ((apply t b commands).run f m).1.1.outcomes.map (·.isApplied) = made.map (·.node?.isSome) ++ rest.map (·.isApplied) := by
  unfold apply
  rw [List.partition_eq_filter_filter]
  simp only [Session.exchanges_bind, Session.run_bind]
  obtain ⟨made, hmade⟩ := made_createAll t (t.grid.start b) ((items commands).filter (·.command.createsNode)) 0
    (s := .begin b) (b := b) (k := .start b) rfl rfl rfl f m
  generalize (createAll t (t.grid.start b) 0 (.begin b) _).run f m = first at hmade ⊢
  obtain ⟨s, m'⟩ := first
  obtain ⟨rest, hrest⟩ := dealt_carryOutAll t ((items commands).filter (not ∘ fun i : Item => i.command.createsNode))
    false hmade.refs hmade.view f m'
  have hmaking (l : List Turn) (x : Turn) (r : List Turn) (hsplit : made = l ++ x :: r) :
      x.calls = makingCalls t b (t.grid.cell (t.grid.start b) l.length) (t.pinOrder l.length) x.item := by
    have := hmade.calls l x r hsplit
    rwa [Nat.zero_add] at this
  have hexpected (l : List Turn) (x : Turn) (r : List Turn) (hsplit : rest = l ++ x :: r) :
      x.calls = x.expected t (made.isEmpty && l.isEmpty) (l.any (·.isApplied))
        (l.foldl .fetch (made.foldl .make (.start b))) := by
    -- No outcome so far means that no node was to be made.
    have hfirst : s.outcomes.isEmpty = made.isEmpty := by
      have := congrArg List.isEmpty hmade.outcomes
      simpa [Progress.begin] using this
    have := hrest.follows.calls hsplit
    rwa [hfirst, Bool.false_or] at this
  refine ⟨made, rest, hmade.items, hrest.items, ?_, fun l x r hsplit => calls_of_makeable (hmaking l x r hsplit), hexpected,
    fun x hx => ?_, ?_⟩
  · rw [hmade.exchanges, hrest.exchanges, List.flatMap_append]
    exact congrArg _ (List.append_nil _)
  · rcases List.mem_append.mp hx with hx | hx
    · obtain ⟨l, r, hsplit⟩ := List.append_of_mem hx
      exact executions_le_of_making (hmaking l x r hsplit)
    · obtain ⟨l, r, hsplit⟩ := List.append_of_mem hx
      exact executions_le_of_expected (hexpected l x r hsplit)
  · have houtcomes := hrest.outcomes
    rw [hmade.outcomes] at houtcomes
    exact houtcomes

end Batch

end Workboard
