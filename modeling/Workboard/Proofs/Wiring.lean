import Workboard.Proofs.Connections
import Workboard.Proofs.Interleaving
import Workboard.Proofs.Log
import Workboard.Proofs.Run

/-! What a batch does to the connections.

A batch first makes nodes and then none any more, so pins only come, and afterwards they only go. With the
connections consistent all the while, nothing can mention the pins of a node that is gone, and a new node is
connected by the batch or not at all (`Batch.apply_keeps_connections`). -/

namespace Workboard

namespace Session

variable {α β σ : Type} {P : Mutation → Prop} {Q : α → Prop}

/-- The states that a facility goes through: the first one, and one after every call. -/
def states (f : Facility σ) : Session α → σ → List σ
  | done _, s => [s]
  | execute m next, s => s :: (next (f.execute m s).1).states f (f.execute m s).2
  | snapshot next, s => s :: (next (f.snapshot s).1).states f (f.snapshot s).2
  | fence point next, s => s :: (next (f.fence point s).1).states f (f.fence point s).2
  | wait _ next, s => next.states f s

theorem run_mem_states (x : Session α) (f : Facility σ) (s : σ) : (x.run f s).2 ∈ x.states f s := by
  induction x generalizing s with
  | done a => exact List.mem_singleton_self s
  | execute m next ih => exact List.mem_cons_of_mem s (ih _ _)
  | snapshot next ih => exact List.mem_cons_of_mem s (ih _ _)
  | fence point next ih => exact List.mem_cons_of_mem s (ih _ _)
  | wait t next ih => exact ih s

theorem start_mem_states (x : Session α) (f : Facility σ) (s : σ) : s ∈ x.states f s := by
  induction x with
  | done a => exact List.mem_singleton_self s
  | wait t next ih => exact ih
  | _ => exact List.mem_cons_self

theorem mem_states_bind {x : Session α} {k : α → Session β} {f : Facility σ} {s s' : σ} (h : s' ∈ (x >>= k).states f s) :
    s' ∈ x.states f s ∨ s' ∈ (k (x.run f s).1).states f (x.run f s).2 := by
  change s' ∈ (x.bind k).states f s at h
  have hcons : ∀ {s : σ} {l l' r : List σ}, (s' ∈ l → s' ∈ l' ∨ s' ∈ r) → s' ∈ s :: l → s' ∈ s :: l' ∨ s' ∈ r := by
    intro s l l' r hl h
    rcases List.mem_cons.mp h with rfl | h
    · exact Or.inl List.mem_cons_self
    · exact (hl h).imp_left (List.mem_cons_of_mem s)
  induction x generalizing s with
  | done a => exact Or.inr h
  | execute m next ih => exact hcons (ih _) h
  | snapshot next ih => exact hcons (ih _) h
  | fence point next ih => exact hcons (ih _) h
  | wait t next ih => exact ih h

/-- What each mutation that a session may ask for keeps, and how it relates a memory to the one before, holds
    all along a run. -/
theorem Ensures.states {x : Session α} (hx : x.Ensures P Q) {I : Memory → Prop} {R : Memory → Memory → Prop}
    (hrefl : ∀ s, R s s) (htrans : ∀ {s s' s''}, R s s' → R s' s'' → R s s'')
    (hstep : ∀ s m, I s → P m → I (s.execute m).2 ∧ R s (s.execute m).2) {s : Memory} (hs : I s) :
    ∀ s' ∈ x.states Memory.facility s, I s' ∧ R s s' ∧ R s' (x.run Memory.facility s).2 := by
  induction x generalizing s with
  | done a =>
    intro s' h
    obtain rfl := List.mem_singleton.mp h
    exact ⟨hs, hrefl _, hrefl _⟩
  | execute m next ih =>
    obtain ⟨hkept, hone⟩ := hstep s m hs hx.1
    have hrest := ih (s.execute m).1 (hx.2 _) hkept
    intro s' h
    rcases List.mem_cons.mp h with rfl | h
    · exact ⟨hs, hrefl _, htrans hone (hrest _ (run_mem_states _ _ _)).2.1⟩
    · obtain ⟨hI, hbefore, hafter⟩ := hrest s' h
      exact ⟨hI, htrans hone hbefore, hafter⟩
  | snapshot next ih =>
    have hrest := ih _ (hx (.ok s.board)) hs
    intro s' h
    rcases List.mem_cons.mp h with rfl | h
    · exact ⟨hs, hrefl _, (hrest _ (run_mem_states _ _ _)).2.1⟩
    · exact hrest s' h
  | fence point next ih =>
    have hrest := ih _ (hx true) hs
    intro s' h
    rcases List.mem_cons.mp h with rfl | h
    · exact ⟨hs, hrefl _, (hrest _ (run_mem_states _ _ _)).2.1⟩
    · exact hrest s' h
  | wait t next ih => exact ih hx hs

/-- A memory is one way to answer, and its journal is what was accepted. -/
theorem Logs.run {x : Session α} {Q : Log → α → Prop} {l : Log} (h : x.Logs Q l) {s : Memory}
    (hl : l.accepted.map Accepted.mutation = s.journal) :
    ∃ l', Q l' (x.run Memory.facility s).1 ∧ l'.accepted.map Accepted.mutation = (x.run Memory.facility s).2.journal := by
  induction x generalizing l s with
  | done a => exact ⟨l, h, hl⟩
  | execute m next ih =>
    show ∃ l', Q l' ((next (s.execute m).1).run Memory.facility (s.execute m).2).1 ∧
      _ = ((next (s.execute m).1).run Memory.facility (s.execute m).2).2.journal
    unfold Memory.execute
    split
    · rename_i board receipt heffect
      refine ih _ (h.2 receipt (Board.fits_execute (congrArg Effect.result heffect))) ?_
      show (l.accepted ++ [_]).map _ = s.journal ++ [m]
      rw [List.map_append, hl]
      rfl
    · exact ih _ (h.1 _) hl
  | snapshot next ih => exact ih _ (h.2 s.board) hl
  | fence point next ih => exact ih _ (h true) hl
  | wait t next ih => exact ih h hl

end Session

/-! ### Changes of a memory -/

namespace Memory

variable {s s' s'' : Memory} {m : Mutation}

/-- The connections are consistent, and those of boundary pins are none. -/
def Connected (s : Memory) : Prop := s.board.Consistent ∧ s.board.BareBoundary

theorem Connected.execute (h : s.Connected) (hm : m.Proper) : (s.execute m).2.Connected := by
  unfold Connected
  rw [board_execute]
  exact ⟨h.1.execute hm, h.2.execute hm⟩

/-- A connection that is new was asked for, and the journal has it. -/
structure Wires (s s' : Memory) : Prop where
  journal : ∀ m ∈ s.journal, m ∈ s'.journal
  edges : ∀ k l, s'.board.Edge k l → s.board.Edge k l ∨ ∃ w, .connect w ∈ s'.journal ∧ w.fromPin = k ∧ w.toPin = l

theorem Wires.refl (s : Memory) : Wires s s := ⟨fun _ h => h, fun _ _ h => Or.inl h⟩

theorem Wires.trans (h : Wires s s') (h' : Wires s' s'') : Wires s s'' where
  journal m hm := h'.journal m (h.journal m hm)
  edges k l he := by
    rcases h'.edges k l he with he | hnew
    · rcases h.edges k l he with he | ⟨w, hw, hends⟩
      · exact Or.inl he
      · exact Or.inr ⟨w, h'.journal _ hw, hends⟩
    · exact Or.inr hnew

theorem Connected.wires (h : s.Connected) (hm : m.Proper) : Wires s (s.execute m).2 := by
  have hclean := fun e => h.1.toKeyed.board_of_error (m := m) (e := e)
  have hadded := fun k l => h.1.edge_execute (k := k) (l := l) hm
  unfold Memory.execute
  split
  · rename_i board receipt heffect
    rw [heffect] at hadded
    refine ⟨fun m' hm' => List.mem_append_left _ hm', fun k l he => ?_⟩
    rcases hadded k l he with he | ⟨w, rfl, hends⟩
    · exact Or.inl he
    · exact Or.inr ⟨w, List.mem_append_right _ (List.mem_singleton_self _), hends⟩
  · rename_i board e heffect
    rw [heffect] at hclean
    obtain rfl := hclean e rfl
    exact Wires.refl s

theorem Connected.grows (h : s.Connected) (hm : m.Proper) (hmakes : m.makesNode = true) :
    s.board.Grows (s.execute m).2.board := by
  rw [board_execute]
  exact (h.1.toInStep.pinStep hm).grows hmakes

theorem Connected.shrinks (h : s.Connected) (hm : m.Proper) (hmakes : m.makesNode = false) :
    (s.execute m).2.board.Grows s.board := by
  rw [board_execute]
  exact (h.1.toInStep.pinStep hm).shrinks hmakes

end Memory

theorem Action.mutation_eq_connect {a : Action} {s : References} {view : Board} {now : UInt64} {w : Wire}
    (h : a.mutation s view now = .ok (.connect w)) : ∃ r, a = .connectPins r ∧ s.wire view r = .ok w := by
  cases asks_of_mutation h with
  | connectPins hw => exact ⟨_, rfl, hw⟩

namespace Batch

/-! ### New nodes -/

/-- The nodes that a batch makes on a board are none that were there. -/
theorem created_createAll {b : Board} (t : Occasion) (start : Spot) (items : List Item) (n : Nat) {s : Progress} {m : Memory}
    (hm : m.board.Keyed) (hnodes : ∀ x, m.board.copy? none x = none → b.copy? none x = none)
    (hs : ∀ x ∈ s.created.map (·.node), b.copy? none x = none) :
    ∀ x ∈ ((createAll t start n s items).run Memory.facility m).1.created.map (·.node), b.copy? none x = none := by
  let I (x : Progress × Memory) : Prop := x.2.board.Keyed ∧ (∀ y, x.2.board.copy? none y = none → b.copy? none y = none) ∧
    ∀ y ∈ x.1.created.map (·.node), b.copy? none y = none
  refine (keeps_createAll (I := I) start items n (fun k _ i _ s m ⟨hm, hnodes, hs⟩ => ?_) ⟨hm, hnodes, hs⟩).2.2
  rcases run_create_cases t s (t.grid.cell start k) (t.pinOrder k) i m with ⟨e, hrun⟩ | ⟨c, made, -, rfl, hrun⟩
  · rw [hrun]
    exact ⟨hm, hnodes, hs⟩
  · rw [hrun]
    refine ⟨?_, fun x hx => ?_, fun x hx => ?_⟩
    · exact ⟨(hm.storeNode _).nodes, (hm.storeNode _).mirrors⟩
    · change (m.board.storeNode _).copy? none x = none at hx
      rw [Board.copy?_storeNode_none] at hx
      split at hx
      · cases hx
      · exact hnodes x hx
    · change x ∈ (s.created ++ [_]).map _ at hx
      rw [List.map_append, List.mem_append] at hx
      rcases hx with hx | hx
      · exact hs x hx
      · obtain rfl := List.mem_singleton.mp hx
        exact hnodes _ (hm.copy?_freshId "node" none)

/-! ### Applied commands and the journal -/

section
variable {t : Occasion} {view : Board} {commands : List Command}

/-- An applied command had these two pins connected. The journal has the mutations of the applied commands in
    order. -/
def Connects (commands : List Command) (report : Report) (journal : List Mutation) (k l : String) : Prop :=
  ∃ o c r w, (o, .connect w) ∈ (report.outcomes.filter (·.isApplied)).zip journal ∧
    commands[o.index]? = some c ∧ c.action = .connectPins r ∧ w.fromPin = k ∧ w.toPin = l

/-- A connection that the journal of a batch's memory has is that of an applied command. -/
theorem connects_of_mem_journal {b : Board} {w : Wire}
    (h : .connect w ∈ ((apply t view commands).run Memory.facility (.ofBoard b)).2.journal) :
    Connects commands ((apply t view commands).run Memory.facility (.ofBoard b)).1.1
      ((apply t view commands).run Memory.facility (.ofBoard b)).2.journal w.fromPin w.toPin := by
  obtain ⟨l, hexplained, hjournal⟩ := (logs_apply t view commands).run (s := .ofBoard b) rfl
  generalize (apply t view commands).run Memory.facility (.ofBoard b) = result at *
  rw [← hjournal] at h ⊢
  obtain ⟨hlength, hpairs⟩ := List.forall₂_iff_zip.mp hexplained
  obtain ⟨i, hi, hw⟩ := List.mem_iff_getElem.mp h
  rw [List.length_map] at hi
  rw [List.getElem_map] at hw
  have hi' : i < (result.1.1.outcomes.filter (·.isApplied)).length := hlength ▸ hi
  have hmem : ((result.1.1.outcomes.filter (·.isApplied))[i], l.accepted[i]) ∈
      (result.1.1.outcomes.filter (·.isApplied)).zip l.accepted := by
    rw [← List.getElem_zip (h := by rw [List.length_zip]; omega)]
    exact List.getElem_mem _
  have hzip : ((result.1.1.outcomes.filter (·.isApplied))[i], Mutation.connect w) ∈
      (result.1.1.outcomes.filter (·.isApplied)).zip (l.accepted.map Accepted.mutation) := by
    rw [List.zip_map_right, List.mem_map]
    exact ⟨_, hmem, by rw [← hw]; rfl⟩
  cases hpairs hmem with
  | made _ _ makes =>
    rw [hw] at makes
    cases makes
  | @carriedOut c _ hc _ _ _ stands =>
    rw [hw] at stands
    obtain ⟨r, haction, -⟩ := Action.mutation_eq_connect stands
    exact ⟨_, c, r, w, hzip, hc, haction, rfl, rfl⟩

end

/-! ### Batches -/

/-- Between the two rounds a memory has all the pins that there are at any time. -/
theorem exists_peak (t : Occasion) (view : Board) (commands : List Command) {s : Memory} (hs : s.Connected) :
    ∃ peak : Memory, peak.Connected ∧
      ∀ s' ∈ (apply t view commands).states Memory.facility s, s'.Connected ∧ s'.board.Grows peak.board := by
  unfold apply
  rw [List.partition_eq_filter_filter]
  let creations := (items commands).filter (·.command.createsNode)
  let making := createAll t (t.grid.start view) 0 (.begin view) creations
  let middle := (making.run Memory.facility s).2
  have hmaking := (deals_createAll t (t.grid.start view) creations 0 (.begin view)).states (I := Memory.Connected)
    (R := fun s s' => s.board.Grows s'.board) (fun s => .refl s.board) (fun h h' => h.trans h')
    (fun s m h hm => ⟨h.execute hm.1, h.grows hm.1 hm.2⟩) hs
  have hmiddle : middle.Connected := (hmaking middle (making.run_mem_states Memory.facility s)).1
  refine ⟨middle, hmiddle, fun s' hs' => ?_⟩
  rcases Session.mem_states_bind hs' with hs' | hs'
  · exact ⟨(hmaking s' hs').1, (hmaking s' hs').2.2⟩
  let rest := carryOutAll t false (making.run Memory.facility s).1 ((items commands).filter (!·.command.createsNode))
  have hrest := (deals_carryOutAll t ((items commands).filter (!·.command.createsNode)) false
    (making.run Memory.facility s).1).states (I := Memory.Connected)
    (R := fun s s' => s'.board.Grows s.board) (fun s => .refl s.board) (fun h h' => h'.trans h)
    (fun s m h hm => ⟨h.execute hm.1, h.shrinks hm.1 hm.2⟩) hmiddle
  have hs' : s' ∈ rest.states Memory.facility middle := by
    rcases Session.mem_states_bind hs' with hs' | hs'
    · exact hs'
    · obtain rfl := List.mem_singleton.mp hs'
      exact rest.run_mem_states Memory.facility middle
  exact ⟨(hrest s' hs').1, (hrest s' hs').2.1⟩

theorem created_apply {b : Board} (hb : b.Keyed) :
    ∀ c ∈ ((apply t view commands).run Memory.facility (.ofBoard b)).1.1.created, b.copy? none c.node = none := by
  unfold apply
  rw [List.partition_eq_filter_filter]
  simp only [Session.run_bind]
  intro c hc
  have hmade := created_createAll (b := b) t (t.grid.start view) ((items commands).filter (·.command.createsNode)) 0
    (s := .begin view) (m := .ofBoard b) hb (fun _ h => h) fun _ h => by cases h
  generalize (createAll t (t.grid.start view) 0 (.begin view) ((items commands).filter (·.command.createsNode))).run
    Memory.facility (.ofBoard b) = made at *
  have hrest := (deals_carryOutAll t ((items commands).filter (!·.command.createsNode)) false made.1).run Memory.facility
    made.2
  obtain ⟨outcomes, hreported⟩ := hrest
  have hsame := hreported.created
  rw [if_neg Bool.false_ne_true, List.append_nil] at hsame
  refine hmade c.node ?_
  rw [← hsame]
  exact List.mem_map_of_mem hc

/-- What a batch leaves of the connections on a memory. -/
structure KeepsConnections (commands : List Command) (batch : Session (Report × List Notice)) (s : Memory) : Prop where
  connected : ∀ s' ∈ batch.states Memory.facility s, s'.Connected
  /-- No pin mentions a pin of a node that was there at some time and is no longer. -/
  removed : ∀ s' ∈ batch.states Memory.facility s, ∀ x k p, s'.board.nodePin? x k = some p →
    (batch.run Memory.facility s).2.board.node? x = none → ¬ (batch.run Memory.facility s).2.board.Mentions k
  /-- A node that the batch made has the connections that applied commands made. -/
  created : ∀ c ∈ (batch.run Memory.facility s).1.1.created, ∀ k p,
    (batch.run Memory.facility s).2.board.nodePin? c.node k = some p → ∀ l,
    (p.connectedTo.contains l = true →
      Connects commands (batch.run Memory.facility s).1.1 (batch.run Memory.facility s).2.journal k l) ∧
    (p.dependsOn.contains l = true →
      Connects commands (batch.run Memory.facility s).1.1 (batch.run Memory.facility s).2.journal l k)

/-- A batch keeps the connections of a board consistent after every call, whatever view it begins on, leaves none to
    a node that is gone, and makes those of its new nodes by its commands alone. -/
theorem apply_keeps_connections (t : Occasion) (view : Board) (commands : List Command) {b : Board} (hb : b.Consistent)
    (hbare : b.BareBoundary) : KeepsConnections commands (apply t view commands) (.ofBoard b) := by
  let batch := apply t view commands
  let last := (batch.run Memory.facility (.ofBoard b)).2
  have hstart : (Memory.ofBoard b).Connected := ⟨hb, hbare⟩
  obtain ⟨peak, hpeak, hstates⟩ := exists_peak t view commands hstart
  have hlast := hstates last (batch.run_mem_states Memory.facility _)
  -- A pin that is there at two times is one of the same node.
  have hunique : ∀ {s s' : Memory}, s.board.Grows peak.board → s'.board.Grows peak.board → ∀ {x y k p q},
      s.board.nodePin? x k = some p → s'.board.nodePin? y k = some q → x = y := by
    intro s s' hs hs' x y k p q hp hq
    obtain ⟨p', hp'⟩ := hs x k p hp
    obtain ⟨q', hq'⟩ := hs' y k q hq
    exact hpeak.1.unique x y k p' q' hp' hq'
  refine ⟨fun s hs => (hstates s hs).1, fun s hs x k p hp hgone hk => ?_, fun c hc k p hp l => ?_⟩
  · obtain ⟨y, q, hq⟩ := hlast.1.1.pin_of_mentions hlast.1.2 hk
    obtain rfl := hunique (hstates s hs).2 hlast.2 hp hq
    rw [hlast.1.1.toInStep.node?] at hgone
    obtain ⟨n, hn, -⟩ := Board.nodePin?_eq_some.mp hq
    rw [hgone] at hn
    cases hn
  · have hfresh : ∀ {y q}, b.nodePin? y k ≠ some q := by
      intro y q hq
      obtain rfl := hunique (s := .ofBoard b) (hstates _ (batch.start_mem_states Memory.facility _)).2 hlast.2 hq hp
      obtain ⟨n, hn, -⟩ := Board.nodePin?_eq_some.mp hq
      rw [created_apply hb.toKeyed c hc] at hn
      cases hn
    have hwires := ((ensures_apply t view commands).states (I := Memory.Connected) (R := Memory.Wires) Memory.Wires.refl
      (fun h h' => h.trans h') (fun s m h hm => ⟨h.execute hm, h.wires hm⟩) hstart last
      (batch.run_mem_states Memory.facility _)).2.1
    constructor
    · intro hl
      rcases hwires.edges k l ⟨c.node, p, hp, hl⟩ with he | ⟨w, hw, rfl, rfl⟩
      · obtain ⟨⟨y, q, hq⟩, -⟩ := hb.pins_of_edge he
        exact absurd hq hfresh
      · exact connects_of_mem_journal hw
    · intro hl
      rcases hwires.edges l k (hlast.1.1.edge_of_dependsOn hp hl) with he | ⟨w, hw, rfl, rfl⟩
      · obtain ⟨-, y, q, hq⟩ := hb.pins_of_edge he
        exact absurd hq hfresh
      · exact connects_of_mem_journal hw

/-- A template with one execution pin. -/
def template (name : String) (d : Direction) : Node :=
  ⟨"", name, name, "", "", none, .ofList [("exec", Placeholder.plainPin "exec" "Exec" "" d .execution .single)], .origin, none⟩

/-- Two nodes whose execution pins are connected. -/
def linked : Board :=
  let one := ((Board.blank "b" "board").execute (.addNode (template "start" .output) none [])).board
  let two := (one.execute (.addNode (template "end" .input) none [])).board
  (two.execute (.connect ⟨"node-1", "pin-2", "node-3", "pin-4"⟩)).board

theorem connected_linked : linked.Consistent ∧ linked.BareBoundary := by
  have hblank : (Board.blank "b" "board").BareBoundary := fun layer l k p hl _ => by cases hl
  constructor
  · exact (((Board.consistent_blank "b" "board").execute (m := .addNode _ none _) trivial).execute (m := .addNode _ none _)
      trivial).execute (m := .connect _) trivial
  · exact ((hblank.execute (m := .addNode _ none _) trivial).execute (m := .addNode _ none _) trivial).execute
      (m := .connect _) trivial

/-- A batch removes a connected node and connects a new one in its place. -/
theorem apply_keeps_connections_replaced :
    let t : Setting := ⟨[template "end" .input], .standard, .zero, 0⟩
    let commands : List Command := [⟨.removeNode "node-3", none⟩, ⟨.connectPins ⟨"node-1", "exec", "a", "exec"⟩, none⟩,
      ⟨.addNode ⟨"end", some "a", none, none, none⟩, none⟩]
    let batch := apply t linked commands
    let run := batch.run Memory.facility (.ofBoard linked)
    linked.Consistent ∧ linked.BareBoundary ∧ run.1.1.created.map (·.node) = ["node-5"] ∧
    run.2.journal.map Mutation.kind = ["AddNode", "RemoveNode", "ConnectPins"] ∧
    (run.2.board.nodePin? "node-1" "pin-2").map (·.connectedTo.toList) = some ["pin-6"] ∧
    KeepsConnections commands batch (.ofBoard linked) := by
  intro t commands batch run
  obtain ⟨hb, hbare⟩ := connected_linked
  exact ⟨hb, hbare, by decide +kernel, by decide +kernel, by decide +kernel, apply_keeps_connections t linked commands hb hbare⟩

end Batch

end Workboard
