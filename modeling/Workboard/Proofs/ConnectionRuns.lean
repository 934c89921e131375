import Workboard.Proofs.BarePins
import Workboard.Proofs.PinRoundTrip
import Workboard.Proofs.Rewiring

/-! Batches that connect pins and take them apart.

Such a batch addresses the same pins all the time (`Board.SameMeaning`), so it comes to a run of changes of its first board:
a connection is made, or it is undone if it is there (`Board.rewireAll`, `Batch.board_apply`). What a run leaves at an end
of connections is told by the last change there that took place (`Pin.exists_setAll`). Where different connections have no
end in common, this is the last one that was asked for, so runs of the same changes, in other numbers and in another order,
lead to the same connections exactly if the last change of each connection is the same (`Board.rewireAll_eq_iff`). -/

namespace Workboard

/-- The pins that a command connects or takes apart, and which of the two it does. -/
def Command.rewiring? (c : Command) : Option (WireRequest × Bool) :=
  match c.action with
  | .connectPins r => some (r, true)
  | .disconnectPins r => some (r, false)
  | _ => none

namespace Board

variable {b b' : Board} {w w' : Wire} {ms : List (Wire × Bool)}

/-- The connection that a request means, if it can be made. -/
def meant? (b : Board) (r : WireRequest) : Option Wire :=
  ((References.seed b).wire b r).toOption.filter fun w => (b.needEnds w).isOk

/-- The connections that commands mean to make or to undo, one after the other. -/
def moves (b : Board) (l : List Command) : List (Wire × Bool) :=
  l.filterMap fun c => c.rewiring?.bind fun m => (b.meant? m.1).map (·, m.2)

theorem moves_cons (b : Board) {c : Command} {r : WireRequest} {on : Bool} (hc : c.rewiring? = some (r, on))
    (l : List Command) : b.moves (c :: l) = ((b.meant? r).map (·, on)).toList ++ b.moves l := by
  unfold moves
  rw [List.filterMap_cons, hc, Option.bind_some]
  cases b.meant? r <;> rfl

theorem mem_moves {m : Wire × Bool} {l : List Command} :
    m ∈ b.moves l ↔ ∃ r, (∃ c ∈ l, c.rewiring? = some (r, m.2)) ∧ b.meant? r = some m.1 := by
  unfold moves
  rw [List.mem_filterMap]
  constructor
  · rintro ⟨c, hc, h⟩
    obtain ⟨⟨r, on⟩, hr, h⟩ := Option.bind_eq_some_iff.mp h
    obtain ⟨w, hw, rfl⟩ := Option.map_eq_some_iff.mp h
    exact ⟨r, ⟨c, hc, hr⟩, hw⟩
  · rintro ⟨r, ⟨c, hc, hr⟩, hw⟩
    exact ⟨c, hc, by rw [hr, Option.bind_some, hw]; rfl⟩

theorem needEnds_of_mem_moves {m : Wire × Bool} {l : List Command} (h : m ∈ b.moves l) : b.needEnds m.1 = .ok () := by
  obtain ⟨r, -, hw⟩ := mem_moves.mp h
  have hok := (Option.filter_eq_some_iff.mp hw).2
  cases hends : b.needEnds m.1 with
  | ok u => rfl
  | error e =>
    rw [hends] at hok
    cases hok

/-- A connection is made, or undone if it is there. -/
def rewire (b : Board) (m : Wire × Bool) : Board := if m.2 || b.isConnected m.1 then b.setEnds m.1 m.2 else b

def rewireAll (b : Board) (ms : List (Wire × Bool)) : Board := ms.foldl rewire b

theorem rewireAll_append (b : Board) (ms ms' : List (Wire × Bool)) :
    b.rewireAll (ms ++ ms') = (b.rewireAll ms).rewireAll ms' := List.foldl_append

/-! ### A batch as a run of changes -/

/-- Boards on which requests mean the same connections. -/
structure SameMeaning (b b' : Board) : Prop where
  bare : b.SameBare b'
  ends : ∀ w, b'.needEnds w = b.needEnds w

theorem SameMeaning.refl (b : Board) : b.SameMeaning b := ⟨.refl b, fun _ => rfl⟩

theorem SameMeaning.setEnds (h : b.SameMeaning b') (w : Wire) (on : Bool) : b.SameMeaning (b'.setEnds w on) where
  bare x := by
    rw [node?_setEnds, Option.map_map, ← h.bare x]
    refine congrArg (fun f => Option.map f (b'.node? x)) (funext fun n => ?_)
    exact n.bare_setEnds x w on
  ends w' := (b'.needEnds_setEnds w on w').trans (h.ends w')

theorem SameMeaning.rewire (h : b.SameMeaning b') (m : Wire × Bool) : b.SameMeaning (b'.rewire m) := by
  unfold Board.rewire
  split
  · exact h.setEnds m.1 m.2
  · exact h

theorem SameMeaning.rewireAll (h : b.SameMeaning b') (ms : List (Wire × Bool)) : b.SameMeaning (b'.rewireAll ms) :=
  List.foldlRecOn (motive := fun b' => b.SameMeaning b') ms _ h fun _ h m _ => h.rewire m

theorem SameMeaning.countChange (h : b.SameMeaning b') : b.SameMeaning b'.countChange := ⟨h.bare, h.ends⟩

theorem SameMeaning.iterate_countChange (h : b.SameMeaning b') (n : Nat) : b.SameMeaning (Board.countChange^[n] b') := by
  induction n generalizing b' with
  | zero => exact h
  | succ n ih => exact ih h.countChange

theorem rewire_countChange (b : Board) (m : Wire × Bool) : b.countChange.rewire m = (b.rewire m).countChange := by
  unfold rewire
  exact (apply_ite countChange (m.2 || b.isConnected m.1) (b.setEnds m.1 m.2) b).symm

theorem rewireAll_iterate (b : Board) (n : Nat) (ms : List (Wire × Bool)) :
    (countChange^[n] b).rewireAll ms = countChange^[n] (b.rewireAll ms) := by
  have hone : ∀ b : Board, b.countChange.rewireAll ms = (b.rewireAll ms).countChange := by
    induction ms with
    | nil => exact fun _ => rfl
    | cons m ms ih =>
      intro b
      show (b.countChange.rewire m).rewireAll ms = _
      rw [rewire_countChange]
      exact ih (b.rewire m)
  induction n generalizing b with
  | zero => rfl
  | succ n ih => rw [Function.iterate_succ_apply, ih, hone, ← Function.iterate_succ_apply]

/-- A mutation on a connection changes the board as is meant, if its ends are there. -/
theorem exists_execute_rewire (b : Board) (w : Wire) (on : Bool) :
    ∃ n, (b.execute (if on then .connect w else .disconnect w)).board =
      countChange^[n] (if (b.needEnds w).isOk then b.rewire (w, on) else b) := by
  cases hends : b.needEnds w with
  | error e =>
    refine ⟨0, ?_⟩
    cases on with
    | true => rw [if_pos rfl, execute_connect_of_error hends]; rfl
    | false => simp [execute, perform, disconnect, hends, Effect.given, Except.isOk, Except.toBool]
  | ok u =>
    cases on with
    | true => exact ⟨1, by rw [if_pos rfl, execute_connect_of_ok hends]; rfl⟩
    | false =>
      cases hon : b.isConnected w with
      | true =>
        refine ⟨1, ?_⟩
        rw [if_neg Bool.false_ne_true, execute_disconnect_of_connected hends hon]
        simp [rewire, hon, Except.isOk, Except.toBool]
      | false =>
        refine ⟨0, ?_⟩
        simp [execute, perform, disconnect, hends, Effect.given, rewire, hon, Except.isOk, Except.toBool]

end Board

namespace Batch

variable {t : Occasion} {s : Progress} {i : Item} {b : Board} {m : Memory} {l : List Command}

theorem createsNode_of_rewiring? {c : Command} (h : c.rewiring?.isSome = true) : c.createsNode = false := by
  obtain ⟨a, _⟩ := c
  cases a <;> first | rfl | cases h

/-- The mutation that a command on a connection stands for. -/
theorem mutation_of_rewiring? {r : WireRequest} {on : Bool} (h : i.command.rewiring? = some (r, on)) (refs : References)
    (view : Board) (now : UInt64) : i.command.action.mutation refs view now =
      (refs.wire view r).map fun w => if on then .connect w else .disconnect w := by
  obtain ⟨k, a, _⟩ := i
  unfold Command.rewiring? at h
  cases a <;> cases h
  all_goals
    simp only [Action.mutation]
    cases refs.wire view r <;> rfl

theorem run_perform_rewire {r : WireRequest} {on : Bool} (hi : i.command.rewiring? = some (r, on))
    (hrefs : s.refs = .seed b) (hview : b.SameMeaning s.view) (hm : b.SameMeaning m.board) :
    let next := (perform t s i).run Memory.facility m
    next.1.refs = s.refs ∧ next.1.view = s.view ∧
      ∃ n, next.2.board = Board.countChange^[n] (m.board.rewireAll (b.moves [i.command])) := by
  intro next
  have hmutation := mutation_of_rewiring? hi s.refs s.view t.now
  have hwire : (s.refs.wire s.view r).toOption = ((References.seed b).wire b r).toOption := hrefs ▸ hview.bare.wire s.refs r
  rcases run_perform_cases t s i m with ⟨e, he, hrun⟩ | ⟨mutation, hok, hends⟩
  -- A wire that does not stand for pins is none of the moves.
  · have hnone : b.meant? r = none := by
      cases hw : s.refs.wire s.view r with
      | ok w =>
        rw [hmutation, hw] at he
        cases he
      | error e' =>
        rw [hw] at hwire
        rw [Board.meant?, ← hwire]
        rfl
    rw [b.moves_cons hi, hnone, show next = _ from hrun]
    exact ⟨rfl, rfl, 0, rfl⟩
  · obtain ⟨w, hw, rfl⟩ : ∃ w, s.refs.wire s.view r = .ok w ∧ mutation = if on then .connect w else .disconnect w := by
      cases hw : s.refs.wire s.view r with
      | error e =>
        rw [hmutation, hw] at hok
        cases hok
      | ok w =>
        rw [hmutation, hw] at hok
        exact ⟨w, rfl, (Except.ok.inj hok).symm⟩
    have hmeant : b.meant? r = if (m.board.needEnds w).isOk then some w else none := by
      rw [hw] at hwire
      rw [Board.meant?, ← hwire, hm.ends w]
      rfl
    have hmoves : m.board.rewireAll (b.moves [i.command]) =
        if (m.board.needEnds w).isOk then m.board.rewire (w, on) else m.board := by
      rw [b.moves_cons hi, hmeant]
      split <;> rfl
    obtain ⟨n, hn⟩ := m.board.exists_execute_rewire w on
    rw [← hmoves] at hn
    rcases hends with ⟨e, -, hrun⟩ | ⟨receipt, -, hrun⟩
    all_goals
      rw [show next = _ from hrun]
      exact ⟨rfl, rfl, n, hn⟩

/-- An item is carried out on the board as it is or on the view, which mean the same. -/
theorem run_carryOut_rewire {r : WireRequest} {on : Bool} (outdated : Bool) (hi : i.command.rewiring? = some (r, on))
    (hrefs : s.refs = .seed b) (hview : b.SameMeaning s.view) (hm : b.SameMeaning m.board) :
    let next := (carryOut t outdated s i).run Memory.facility m
    next.1.refs = s.refs ∧ b.SameMeaning next.1.view ∧
      ∃ n, next.2.board = Board.countChange^[n] (m.board.rewireAll (b.moves [i.command])) := by
  intro next
  obtain ⟨view, hmeans, hrun⟩ := run_carryOut_view t outdated s i m
  have hmeans : b.SameMeaning view := by
    rcases hmeans with rfl | rfl
    · exact hview
    · exact hm
  obtain ⟨hsame, hkept, n, hn⟩ := run_perform_rewire (t := t) (s := { s with view }) hi hrefs hmeans hm
  rw [show next = _ from hrun]
  exact ⟨hsame, hkept ▸ hmeans, n, hn⟩

theorem run_carryOutAll_rewire (items : List Item) (hitems : ∀ i ∈ items, i.command.rewiring?.isSome = true)
    (outdated : Bool) (hrefs : s.refs = .seed b) (hview : b.SameMeaning s.view) (hm : b.SameMeaning m.board) :
    ∃ n, ((carryOutAll t outdated s items).run Memory.facility m).2.board =
      Board.countChange^[n] (m.board.rewireAll (b.moves (items.map (·.command)))) := by
  induction items generalizing outdated s m with
  | nil => exact ⟨0, rfl⟩
  | cons i items ih =>
    obtain ⟨⟨r, on⟩, hi⟩ := Option.isSome_iff_exists.mp (hitems i List.mem_cons_self)
    obtain ⟨hsame, hview', n, hn⟩ := run_carryOut_rewire (t := t) outdated hi hrefs hview hm
    rw [run_carryOutAll_cons Memory.settled]
    have hm' := (hm.rewireAll (b.moves [i.command])).iterate_countChange n
    rw [← hn] at hm'
    obtain ⟨n', hn'⟩ := ih (fun j hj => hitems j (List.mem_cons_of_mem i hj)) _ (hsame.trans hrefs) hview' hm'
    refine ⟨n' + n, hn'.trans ?_⟩
    have hmoves : b.moves (i.command :: items.map (·.command)) =
        b.moves [i.command] ++ b.moves (items.map (·.command)) := List.filterMap_append (l := [i.command])
    rw [hn, Board.rewireAll_iterate, Function.iterate_add_apply, List.map_cons, hmoves, Board.rewireAll_append]

/-- A batch that only rewires pins comes to a run of changes of the board, counted in the version. -/
theorem exists_board_apply (t : Occasion) (b : Board) (hl : ∀ c ∈ l, c.rewiring?.isSome = true) :
    ∃ n, ((apply t b l).run Memory.facility (.ofBoard b)).2.board =
      Board.countChange^[n] (b.rewireAll (b.moves l)) := by
  have hrewires : ∀ i ∈ items l, i.command.rewiring?.isSome = true := fun i hi =>
    hl _ (List.mem_of_getElem? (mem_items.mp hi))
  have hmaking : making t b l = (.begin b, .ofBoard b) := by
    have hnone : (items l).filter (·.command.createsNode == true) = [] :=
      List.filter_eq_nil_iff.mpr fun i hi => by simp [createsNode_of_rewiring? (hrewires i hi)]
    unfold making
    rw [hnone]
    rfl
  have hothers : ((items l).take l.length).filter (·.command.createsNode == false) = items l := by
    rw [take_items]
    exact List.filter_eq_self.mpr fun i hi => by simp [createsNode_of_rewiring? (hrewires i hi)]
  have hcommands : (items l).map (·.command) = l := by simp [items, Function.comp_def]
  obtain ⟨n, hn⟩ := run_carryOutAll_rewire (t := t) (s := .begin b) (m := .ofBoard b) (items l) hrewires false rfl
    (.refl b) (.refl b)
  refine ⟨n, ?_⟩
  rw [run_apply_eq_upTo]
  show (upTo t b l l.length).2.board = _
  rw [upTo, hmaking, hothers, hn, hcommands]
  rfl

end Batch

/-- Two connections have one of their two ends in common: a pin that lists the same pin. -/
def Wire.SharesEnd (w w' : Wire) : Prop :=
  w.fromNode = w'.fromNode ∧ w.fromPin = w'.fromPin ∧ w.toPin = w'.toPin ∨
    w.toNode = w'.toNode ∧ w.toPin = w'.toPin ∧ w.fromPin = w'.fromPin

/-! ### The last command on each connection -/

/-- What the last of several changes does that is at one of certain connections. -/
def lastAt (P : Wire → Prop) [DecidablePred P] (ms : List (Wire × Bool)) : Option Bool :=
  (ms.filter (P ·.1)).getLast?.map (·.2)

section
variable {P Q : Wire → Prop} [DecidablePred P] [DecidablePred Q] {ms ms' : List (Wire × Bool)}

theorem lastAt_cons (m : Wire × Bool) (ms : List (Wire × Bool)) :
    lastAt P (m :: ms) = (lastAt P ms).or (if P m.1 then some m.2 else none) := by
  unfold lastAt
  rw [List.filter_cons]
  by_cases hm : P m.1
  · simp only [hm, decide_true, if_true, List.getLast?_cons]
    cases (ms.filter (P ·.1)).getLast? <;> rfl
  · simp [hm]

theorem lastAt_congr (h : ∀ m ∈ ms, P m.1 ↔ Q m.1) : lastAt P ms = lastAt Q ms := by
  unfold lastAt
  rw [List.filter_congr fun m hm => decide_eq_decide.mpr (h m hm)]

theorem lastAt_eq_none_iff : lastAt P ms = none ↔ ∀ m ∈ ms, ¬ P m.1 := by
  simp [lastAt]

end

namespace Board

variable {b b' : Board} {w w' : Wire} {ms ms' : List (Wire × Bool)}

/-- The changes that take place. -/
def effects (b : Board) : List (Wire × Bool) → List (Wire × Bool)
  | [] => []
  | m :: ms => if m.2 || b.isConnected m.1 then m :: (b.setEnds m.1 m.2).effects ms else b.effects ms

/-- Makes and removes connections, whether or not they are there. -/
def setAll (b : Board) (es : List (Wire × Bool)) : Board := es.foldl (fun b e => b.setEnds e.1 e.2) b

theorem rewireAll_eq_setAll (b : Board) (ms : List (Wire × Bool)) : b.rewireAll ms = b.setAll (b.effects ms) := by
  induction ms generalizing b with
  | nil => rfl
  | cons m ms ih =>
    show (b.rewire m).rewireAll ms = _
    rw [ih, rewire, effects]
    split <;> rfl

theorem mem_of_mem_effects {m : Wire × Bool} (h : m ∈ b.effects ms) : m ∈ ms := by
  induction ms generalizing b with
  | nil => exact h
  | cons m' ms ih =>
    rw [effects] at h
    split at h
    · rcases List.mem_cons.mp h with rfl | h
      · exact List.mem_cons_self
      · exact List.mem_cons_of_mem m' (ih h)
    · exact List.mem_cons_of_mem m' (ih h)

theorem sameRest_setAll (b : Board) (es : List (Wire × Bool)) : SameRest b (b.setAll es) :=
  List.foldlRecOn (motive := fun b' => SameRest b b') es _ (SameRest.refl b) fun b' h e _ =>
    h.trans (sameRest_setEnds b' e.1 e.2)

end Board

def Pin.setAll (p : Pin) (key pin : String) (es : List (Wire × Bool)) : Pin :=
  es.foldl (fun p e => p.setEnd key pin e.1 e.2) p

theorem KeySet.contains_put_if {c : Prop} [Decidable c] (s : KeySet) (k other : String) (on : Bool) :
    (if c then s.put k on else s).contains other = (if c ∧ k = other then some on else none).getD (s.contains other) := by
  by_cases hc : c
  · rw [if_pos hc, contains_put]
    by_cases hk : k = other <;> simp [hc, hk]
  · simp [hc]

/-- What a pin lists after changes: of those at one connection the last counts. -/
theorem Pin.exists_setAll (p : Pin) (key pin : String) (es : List (Wire × Bool)) : ∃ outs ins : KeySet,
    p.setAll key pin es = { p with connectedTo := outs, dependsOn := ins } ∧
    (∀ other, outs.contains other =
      (lastAt (fun w => (w.fromNode = key ∧ w.fromPin = pin) ∧ w.toPin = other) es).getD (p.connectedTo.contains other)) ∧
    ∀ other, ins.contains other =
      (lastAt (fun w => (w.toNode = key ∧ w.toPin = pin) ∧ w.fromPin = other) es).getD (p.dependsOn.contains other) := by
  induction es generalizing p with
  | nil => exact ⟨_, _, rfl, fun _ => rfl, fun _ => rfl⟩
  | cons e es ih =>
    obtain ⟨outs, ins, hset, houts, hins⟩ := ih (p.setEnd key pin e.1 e.2)
    refine ⟨outs, ins, hset, fun other => ?_, fun other => ?_⟩
    · rw [houts, lastAt_cons, setEnd, KeySet.contains_put_if]
      cases lastAt (fun w => (w.fromNode = key ∧ w.fromPin = pin) ∧ w.toPin = other) es <;> rfl
    · rw [hins, lastAt_cons, setEnd, KeySet.contains_put_if]
      cases lastAt (fun w => (w.toNode = key ∧ w.toPin = pin) ∧ w.fromPin = other) es <;> rfl

namespace Board

variable {b b' : Board} {w w' : Wire} {ms ms' : List (Wire × Bool)}

theorem copy?_setAll (b : Board) (es : List (Wire × Bool)) (shelf : Option String) (x : String) :
    (b.setAll es).copy? shelf x =
      (b.copy? shelf x).map fun n => { n with pins := n.pins.mapValues fun k p => p.setAll x k es } := by
  unfold setAll
  induction es generalizing b with
  | nil =>
    have hsame (n : Node) : { n with pins := n.pins.mapValues fun k p => p.setAll x k [] } = n := by
      refine congrArg (fun pins => { n with pins }) (KeyMap.ext fun k => ?_)
      rw [KeyMap.get?_mapValues]
      exact Option.map_id'
    simp only [hsame, List.foldl_nil, Option.map_id']
  | cons e es ih =>
    rw [List.foldl_cons, ih, copy?_setEnds, Option.map_map]
    refine congrArg (fun f => Option.map f (b.copy? shelf x)) (funext fun n => ?_)
    refine congrArg (fun pins => { n with pins }) (KeyMap.ext fun k => ?_)
    simp only [Node.setEnds, KeyMap.get?_mapValues, Option.map_map, Function.comp_def]
    rfl

/-- Changes lead to the same board if they change every pin in the same way. -/
theorem setAll_congr {es es' : List (Wire × Bool)}
    (h : ∀ shelf x n k p, b.copy? shelf x = some n → n.pins.get? k = some p → p.setAll x k es' = p.setAll x k es) :
    b.setAll es' = b.setAll es := by
  refine ((sameRest_setAll b es).symm.trans (sameRest_setAll b es')).eq fun shelf x => ?_
  rw [copy?_setAll, copy?_setAll]
  refine Option.map_congr fun n hn => ?_
  refine congrArg (fun pins => { n with pins }) (KeyMap.ext fun k => ?_)
  rw [KeyMap.get?_mapValues, KeyMap.get?_mapValues]
  exact Option.map_congr fun p hp => h shelf x n k p hn hp

/-- Connections that are not the same have no end in common. -/
def Separate (ms : List (Wire × Bool)) : Prop := ∀ m ∈ ms, ∀ m' ∈ ms, m.1.SharesEnd m'.1 → m.1 = m'.1

theorem isConnected_setEnds_of_not_sharesEnd (h : ¬ w'.SharesEnd w) (b : Board) (on : Bool) :
    (b.setEnds w' on).isConnected w = b.isConnected w := by
  obtain ⟨hout, -⟩ := not_or.mp h
  unfold isConnected
  rw [node?_setEnds]
  cases b.node? w.fromNode with
  | none => rfl
  | some n =>
    simp only [Option.map_some, Option.any_some, Node.setEnds, KeyMap.get?_mapValues]
    cases n.pins.get? w.fromPin with
    | none => rfl
    | some p =>
      simp only [Option.map_some, Option.any_some, Pin.setEnd]
      split
      · rename_i hsame
        rw [KeySet.contains_put, if_neg fun hto => hout ⟨hsame.1, hsame.2, hto⟩]
      · rfl

/-- After a run a connection is there if the last change at it was to make it. -/
theorem isConnected_rewireAll (hends : b.needEnds w = .ok ()) (hsep : ∀ m ∈ ms, m.1.SharesEnd w → m.1 = w) :
    (b.rewireAll ms).isConnected w = (lastAt (· = w) ms).getD (b.isConnected w) := by
  induction ms generalizing b with
  | nil => rfl
  | cons m ms ih =>
    obtain ⟨w', on⟩ := m
    have hsame : (b.rewire (w', on)).needEnds w = .ok () := by
      rw [((SameMeaning.refl b).rewire (w', on)).ends w, hends]
    show ((b.rewire (w', on)).rewireAll ms).isConnected w = _
    rw [ih hsame fun m hm => hsep m (List.mem_cons_of_mem _ hm), lastAt_cons]
    by_cases hw : w' = w
    · subst hw
      have hself : (b.rewire (w', on)).isConnected w' = on := by
        unfold rewire
        split
        · exact isConnected_setEnds_self hends on
        · rename_i hnot
          simp only [Bool.or_eq_true, not_or, Bool.not_eq_true] at hnot
          rw [hnot.1, hnot.2]
      rw [if_pos rfl, hself]
      cases lastAt (· = w') ms <;> rfl
    · have hother : (b.rewire (w', on)).isConnected w = b.isConnected w := by
        unfold rewire
        split
        · exact isConnected_setEnds_of_not_sharesEnd (fun h => hw (hsep _ List.mem_cons_self h)) b on
        · rfl
      rw [if_neg hw, hother, Option.or_none]

/-- The last change that takes place at a connection. One that is undone last is undone if it was there, or was made. -/
theorem lastAt_effects (hends : b.needEnds w = .ok ()) (hsep : ∀ m ∈ ms, m.1.SharesEnd w → m.1 = w) :
    lastAt (· = w) (b.effects ms) =
      (lastAt (· = w) ms).filter fun on => on || b.isConnected w || decide ((w, true) ∈ ms) := by
  induction ms generalizing b with
  | nil => rfl
  | cons m ms ih =>
    obtain ⟨w', on⟩ := m
    have hrest : ∀ m ∈ ms, m.1.SharesEnd w → m.1 = w := fun m hm => hsep m (List.mem_cons_of_mem _ hm)
    have hends' : (b.setEnds w' on).needEnds w = .ok () := (b.needEnds_setEnds w' on w).trans hends
    rw [effects, lastAt_cons]
    by_cases hw : w' = w
    · subst hw
      have hself := isConnected_setEnds_self hends on
      have hnone : lastAt (· = w') ms = none → (w', true) ∉ ms := fun h hmem => lastAt_eq_none_iff.mp h _ hmem rfl
      rw [if_pos rfl]
      cases on with
      | true =>
        rw [if_pos (Bool.true_or _), lastAt_cons, if_pos rfl, ih hends' hrest, hself]
        cases lastAt (· = w') ms <;> simp [Option.filter_some]
      | false =>
        -- A connection that is not there is undone without effect, so what was done last stays so.
        cases hon : b.isConnected w' with
        | true =>
          rw [if_pos (Bool.or_true _), lastAt_cons, if_pos rfl, ih hends' hrest, hself]
          cases hlast : lastAt (· = w') ms with
          | none => simp [Option.filter_some]
          | some last => cases last <;> cases h : decide ((w', true) ∈ ms) <;> simp [h, Option.filter_some]
        | false =>
          rw [if_neg (by simp), ih hends hrest, hon]
          cases hlast : lastAt (· = w') ms with
          | none => simp [hnone hlast, Option.filter_some]
          | some last => simp
    · have hmem : (w, true) ∈ (w', on) :: ms ↔ (w, true) ∈ ms := by
        simp [Ne.symm hw]
      have hother : (b.setEnds w' on).isConnected w = b.isConnected w :=
        isConnected_setEnds_of_not_sharesEnd (fun h => hw (hsep _ List.mem_cons_self h)) b on
      rw [if_neg hw, Option.or_none]
      simp only [hmem]
      split
      · rw [lastAt_cons, if_neg hw, Option.or_none, ih hends' hrest, hother]
      · exact ih hends hrest

/-- At an end, too, the same changes take place last. -/
theorem lastAt_effects_congr {P : Wire → Prop} [DecidablePred P] (hP : ∀ w w', P w → P w' → w.SharesEnd w')
    (hends : ∀ m ∈ ms, b.needEnds m.1 = .ok ()) (hsep : Separate ms) (hmem : ∀ m, m ∈ ms' ↔ m ∈ ms)
    (hlast : ∀ w, lastAt (· = w) ms' = lastAt (· = w) ms) : lastAt P (b.effects ms') = lastAt P (b.effects ms) := by
  by_cases h : ∃ m ∈ ms, P m.1
  · obtain ⟨m, hm, hPm⟩ := h
    have honly : ∀ m' ∈ ms, P m'.1 ↔ m'.1 = m.1 := fun m' hm' =>
      ⟨fun h => hsep m' hm' m hm (hP _ _ h hPm), fun h => h ▸ hPm⟩
    have hshare : ∀ m' ∈ ms, m'.1.SharesEnd m.1 → m'.1 = m.1 := fun m' hm' => hsep m' hm' m hm
    rw [lastAt_congr (Q := (· = m.1)) fun m' hm' => honly m' ((hmem m').mp (mem_of_mem_effects hm')),
      lastAt_congr (Q := (· = m.1)) fun m' (hm' : m' ∈ b.effects ms) => honly m' (mem_of_mem_effects hm'),
      lastAt_effects (hends m hm) fun m' hm' => hshare m' ((hmem m').mp hm'), lastAt_effects (hends m hm) hshare, hlast]
    simp only [hmem]
  · have hnone : ∀ es : List (Wire × Bool), (∀ m ∈ es, m ∈ ms) → lastAt P es = none := fun es hes =>
      lastAt_eq_none_iff.mpr fun m hm hPm => h ⟨m, hes m hm, hPm⟩
    rw [hnone _ fun m hm => (hmem m).mp (mem_of_mem_effects hm), hnone _ fun m hm => mem_of_mem_effects hm]

/-- What a run leads to shows the last command on each connection. -/
theorem lastAt_eq_of_rewireAll_eq (hends : ∀ m ∈ ms, b.needEnds m.1 = .ok ()) (hsep : Separate ms)
    (hmem : ∀ m, m ∈ ms' ↔ m ∈ ms) (heq : b.rewireAll ms' = b.rewireAll ms) (w : Wire) :
    lastAt (· = w) ms' = lastAt (· = w) ms := by
  by_cases hw : ∃ m ∈ ms, m.1 = w
  · obtain ⟨m, hm, rfl⟩ := hw
    have hshare : ∀ m' ∈ ms, m'.1.SharesEnd m.1 → m'.1 = m.1 := fun m' hm' => hsep m' hm' m hm
    have hlast := isConnected_rewireAll (hends m hm) hshare
    have hlast' := isConnected_rewireAll (hends m hm) fun m' hm' => hshare m' ((hmem m').mp hm')
    rw [heq, hlast] at hlast'
    cases hon : lastAt (· = m.1) ms with
    | none => exact absurd rfl (lastAt_eq_none_iff.mp hon m hm)
    | some on =>
      cases hon' : lastAt (· = m.1) ms' with
      | none => exact absurd rfl (lastAt_eq_none_iff.mp hon' m ((hmem m).mpr hm))
      | some on' =>
        rw [hon, hon'] at hlast'
        exact congrArg some hlast'.symm
  · rw [lastAt_eq_none_iff.mpr fun m hm h => hw ⟨m, hm, h⟩,
      lastAt_eq_none_iff.mpr fun m hm h => hw ⟨m, (hmem m).mp hm, h⟩]

/-- Where different connections have no end in common, only the last command on each counts. -/
theorem rewireAll_eq_iff (hends : ∀ m ∈ ms, b.needEnds m.1 = .ok ()) (hsep : Separate ms) (hmem : ∀ m, m ∈ ms' ↔ m ∈ ms) :
    b.rewireAll ms' = b.rewireAll ms ↔ ∀ w, lastAt (· = w) ms' = lastAt (· = w) ms := by
  refine ⟨lastAt_eq_of_rewireAll_eq hends hsep hmem, fun hlast => ?_⟩
  rw [rewireAll_eq_setAll, rewireAll_eq_setAll]
  refine setAll_congr fun _ x _ k p _ _ => ?_
  obtain ⟨outs, ins, hset, houts, hins⟩ := p.exists_setAll x k (b.effects ms')
  obtain ⟨outs', ins', hset', houts', hins'⟩ := p.exists_setAll x k (b.effects ms)
  have hout : outs = outs' := KeySet.ext fun other => by
    rw [houts, houts', lastAt_effects_congr (fun w w' hw hw' => ?_) hends hsep hmem hlast]
    exact Or.inl ⟨hw.1.1.trans hw'.1.1.symm, hw.1.2.trans hw'.1.2.symm, hw.2.trans hw'.2.symm⟩
  have hin : ins = ins' := KeySet.ext fun other => by
    rw [hins, hins', lastAt_effects_congr (fun w w' hw hw' => ?_) hends hsep hmem hlast]
    exact Or.inr ⟨hw.1.1.trans hw'.1.1.symm, hw.1.2.trans hw'.1.2.symm, hw.2.trans hw'.2.symm⟩
  rw [hset, hset', hout, hin]

/-- What the pins of a copy of a node list: the pins that they are connected to, and those that they depend on. -/
def lists? (b : Board) (shelf : Option String) (node pin : String) : Option (KeySet × KeySet) :=
  (b.copy? shelf node).bind fun n => (n.pins.get? pin).map fun p => (p.connectedTo, p.dependsOn)

theorem lists?_setAll {shelf : Option String} {x k : String} {n : Node} {p : Pin} (hn : b.copy? shelf x = some n)
    (hp : n.pins.get? k = some p) (es : List (Wire × Bool)) :
    (b.setAll es).lists? shelf x k = some ((p.setAll x k es).connectedTo, (p.setAll x k es).dependsOn) := by
  rw [lists?, copy?_setAll, hn, Option.map_some, Option.bind_some, KeyMap.get?_mapValues, hp, Option.map_some, Option.map_some]

/-- The pins of all copies of all nodes have the same connections. -/
def SameLists (b b' : Board) : Prop := ∀ shelf node pin, b'.lists? shelf node pin = b.lists? shelf node pin

/-- Runs of changes of one board differ in connections only. -/
theorem rewireAll_eq_of_sameLists (h : (b.rewireAll ms).SameLists (b.rewireAll ms')) : b.rewireAll ms' = b.rewireAll ms := by
  rw [rewireAll_eq_setAll, rewireAll_eq_setAll] at h ⊢
  refine setAll_congr fun shelf x n k p hn hp => ?_
  have hk := h shelf x k
  rw [lists?_setAll hn hp, lists?_setAll hn hp] at hk
  obtain ⟨outs, ins, hset, -, -⟩ := p.exists_setAll x k (b.effects ms')
  obtain ⟨outs', ins', hset', -, -⟩ := p.exists_setAll x k (b.effects ms)
  rw [hset, hset'] at hk ⊢
  obtain ⟨rfl, rfl⟩ := Prod.mk.inj (Option.some.inj hk)
  rfl

/-- Every pin id is that of a pin of one node. -/
def OwnPins (b : Board) : Prop :=
  ∀ x y m n k, b.node? x = some m → b.node? y = some n → m.pins.contains k = true → n.pins.contains k = true → x = y

/-- Where every pin id is of one node, no two connections have an end in common. -/
theorem OwnPins.separate (h : b.OwnPins) (hends : ∀ m ∈ ms, b.needEnds m.1 = .ok ()) : Separate ms := by
  rintro ⟨⟨x, k, y, j⟩, on⟩ hm ⟨⟨x', k', y', j'⟩, on'⟩ hm' hshare
  obtain ⟨⟨source, p, hsource, hp⟩, target, q, htarget, hq⟩ := Board.pins_of_needEnds (hends _ hm)
  obtain ⟨⟨source', p', hsource', hp'⟩, target', q', htarget', hq'⟩ := Board.pins_of_needEnds (hends _ hm')
  rcases hshare with ⟨rfl, rfl, rfl⟩ | ⟨rfl, rfl, rfl⟩
  · obtain rfl := h _ _ _ _ _ htarget htarget' (KeyMap.contains_iff.mpr ⟨q, hq⟩) (KeyMap.contains_iff.mpr ⟨q', hq'⟩)
    rfl
  · obtain rfl := h _ _ _ _ _ hsource hsource' (KeyMap.contains_iff.mpr ⟨p, hp⟩) (KeyMap.contains_iff.mpr ⟨p', hp'⟩)
    rfl

end Board

namespace Batch

variable {l : List Command}

/-- A batch that only rewires pins comes to a run of changes, but for the version. -/
theorem board_apply (t : Occasion) (b : Board) (hl : ∀ c ∈ l, c.rewiring?.isSome = true) :
    { ((apply t b l).run Memory.facility (.ofBoard b)).2.board with version := b.version } = b.rewireAll (b.moves l) := by
  obtain ⟨n, hn⟩ := exists_board_apply t b hl
  have hversion : (b.rewireAll (b.moves l)).version = b.version := by
    rw [Board.rewireAll_eq_setAll]
    exact (Board.sameRest_setAll b _).version
  rw [hn, Board.iterate_countChange, ← hversion]

end Batch

end Workboard
