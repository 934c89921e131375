import Workboard.Proofs.HandedOut
import Workboard.Proofs.Run

/-! The order of new pins.

A new node gets ids for its pins one by one, in the order in which its template gives them. In another order the same ids
go to other pins of the node, and this is all that differs: up to what the pins of nodes are the board is the same
(`Board.outline_execute_addNode`). So for all orders a batch makes the same nodes under the same aliases, and the commands
that make them come to the same (`Batch.creations_in_any_order`). What other commands come to may depend on the order,
since they may refer to a pin by its id. -/

namespace Workboard

/-- A pin of which only the id is known. -/
def Pin.unknown (id : String) : Pin := ⟨id, "", "", "", .input, .string, .single, none, ∅, ∅⟩

/-- A node but for what its pins are. -/
def Node.outline (n : Node) : Node := { n with pins := n.pins.mapValues fun id _ => .unknown id }

def Layer.outline (l : Layer) : Layer := { l with nodes := l.nodes.mapValues fun _ => Node.outline }

/-- A board but for what the pins of its nodes are. -/
def Board.outline (b : Board) : Board :=
  { b with nodes := b.nodes.mapValues fun _ => Node.outline, layers := b.layers.mapValues fun _ => Layer.outline }

namespace KeyMap

variable {α β : Type}

theorem mapValues_insert (f : String → α → β) (m : KeyMap α) (k : String) (v : α) :
    (m.insert k v).mapValues f = (m.mapValues f).insert k (f k v) := by
  refine ext fun j => ?_
  rw [get?_mapValues, get?_insert, get?_insert, get?_mapValues]
  split
  · rename_i hj
    rw [hj]
    rfl
  · rfl

theorem mapValues_ofList (f : String → α → β) (l : List (String × α)) :
    (ofList l).mapValues f = ofList (l.map fun e => (e.1, f e.1 e.2)) := by
  unfold ofList
  rw [List.foldl_map]
  exact (List.foldl_hom (mapValues f) fun m e => (mapValues_insert f m e.1 e.2).symm).symm

end KeyMap

namespace Board

variable {b b' : Board}

/-! ### Ids in use -/

theorem allNodes_outline (b : Board) : b.outline.allNodes = b.allNodes.map Node.outline :=
  allNodes_mapValues (fun _ => rfl) (g := Layer.outline) (fun _ => rfl) rfl rfl

theorem usedIds_outline (b : Board) : b.outline.usedIds = b.usedIds := by
  have hnode (n : Node) : n.outline.id :: n.outline.pins.keys = n.id :: n.pins.keys :=
    congrArg (n.id :: ·) (KeyMap.keys_mapValues _ n.pins)
  unfold usedIds
  rw [allNodes_outline, List.flatMap_map, funext hnode]
  show _ ++ (b.layers.mapValues fun _ => Layer.outline).values.flatMap _ ++ _ ++ _ = _
  rw [← KeyMap.map_values, List.flatMap_map]
  rfl

theorem takenIds_congr (h : b.outline = b'.outline) : b.takenIds = b'.takenIds := by
  rw [takenIds, takenIds, ← usedIds_outline b, h, usedIds_outline]

/-! ### New nodes -/

/-- The ids of new pins depend only on how many there are. -/
theorem map_id_renewPins (taken : KeySet) {l l' : List Pin} (h : l.length = l'.length) :
    (renewPins taken l).map (·.id) = (renewPins taken l').map (·.id) := by
  induction l generalizing taken l' with
  | nil =>
    obtain rfl := List.length_eq_zero_iff.mp h.symm
    rfl
  | cons p l ih =>
    obtain ⟨p', l', rfl⟩ := List.exists_cons_of_length_eq_add_one h.symm
    exact congrArg (freshId taken "pin" :: ·) (ih _ (Nat.succ.inj h))

/-- In every order a template gives the same node but for what the pins are. -/
theorem outline_instantiate (h : b.outline = b'.outline) (template : Node) (layer : Option String)
    (order order' : List String) :
    (b.instantiate template layer order).outline = (b'.instantiate template layer order').outline := by
  have hpins (pins : List Pin) : (KeyMap.ofList (pins.map fun p => (p.id, p))).mapValues (fun id _ => Pin.unknown id) =
      KeyMap.ofList ((pins.map (·.id)).map fun id => (id, Pin.unknown id)) := by
    rw [KeyMap.mapValues_ofList, List.map_map, List.map_map]
    rfl
  have hlength := (KeyMap.perm_valuesIn order template.pins).trans (KeyMap.perm_valuesIn order' template.pins).symm
  unfold instantiate Node.outline
  rw [takenIds_congr h, hpins, hpins, map_id_renewPins _ hlength.length_eq]

theorem outline_storeNode (b : Board) (n : Node) : (b.storeNode n).outline = b.outline.storeNode n.outline := by
  have hnodes : (b.nodes.insert n.id n).mapValues (fun _ => Node.outline) =
      (b.nodes.mapValues fun _ => Node.outline).insert n.id n.outline := KeyMap.mapValues_insert _ _ _ _
  have hlayers : (b.storeNode n).layers.mapValues (fun _ => Layer.outline) = (b.outline.storeNode n.outline).layers := by
    have hlayer : n.outline.layer = n.layer := rfl
    unfold storeNode
    rw [hlayer]
    cases n.layer with
    | none => rfl
    | some layer =>
      refine KeyMap.ext fun k => ?_
      simp only [outline, KeyMap.get?_mapValues, KeyMap.get?_modify]
      split
      · cases b.layers.get? k with
        | none => rfl
        | some l => exact congrArg (fun nodes => some { l with nodes }) (KeyMap.mapValues_insert _ _ _ _)
      · rfl
  calc (b.storeNode n).outline = { b with
        nodes := (b.nodes.insert n.id n).mapValues fun _ => Node.outline
        layers := (b.storeNode n).layers.mapValues fun _ => Layer.outline } := rfl
    _ = b.outline.storeNode n.outline := by
      rw [hnodes, hlayers]
      rfl

/-- Boards with the same outline have layers of the same ids. -/
theorem isSome_layer?_congr (h : b.outline = b'.outline) (id : String) : (b.layer? id).isSome = (b'.layer? id).isSome := by
  have hlayer (b : Board) : (b.outline.layer? id).isSome = (b.layer? id).isSome := by
    rw [layer?, outline, KeyMap.get?_mapValues, Option.isSome_map]
    rfl
  rw [← hlayer b, h, hlayer b']

theorem needLayer?_congr (h : b.outline = b'.outline) (layer : Option String) : b.needLayer? layer = b'.needLayer? layer := by
  cases layer with
  | none => rfl
  | some id =>
    have hlayer := isSome_layer?_congr h id
    simp only [needLayer?, needLayer]
    generalize b.layer? id = l at hlayer ⊢
    generalize b'.layer? id = l' at hlayer ⊢
    cases l <;> cases l' <;> first | rfl | cases hlayer

theorem viewLayer?_congr (h : b.outline = b'.outline) (layer : Option String) : b.viewLayer? layer = b'.viewLayer? layer := by
  cases layer with
  | none => rfl
  | some id =>
    have hlayer := isSome_layer?_congr h id
    simp only [viewLayer?, viewLayer]
    generalize b.layer? id = l at hlayer ⊢
    generalize b'.layer? id = l' at hlayer ⊢
    cases l <;> cases l' <;> first | rfl | cases hlayer

/-- Boards with the same outline refuse a template for the same reason, or make the same node of it but for what the pins
    are; and their outline is the same again. -/
theorem outline_execute_addNode (h : b.outline = b'.outline) (template : Node) (layer : Option String)
    (order order' : List String) :
    (∃ e, b.execute (.addNode template layer order) = ⟨b, .error e⟩ ∧
      b'.execute (.addNode template layer order') = ⟨b', .error e⟩) ∨
    ∃ last last' n n', b.execute (.addNode template layer order) = ⟨last, .ok (.storedNode n)⟩ ∧
      b'.execute (.addNode template layer order') = ⟨last', .ok (.storedNode n')⟩ ∧
      n.outline = n'.outline ∧ last.outline = last'.outline := by
  have hlayer := needLayer?_congr h layer
  rcases b.execute_addNode template layer order with ⟨e, he, hrun⟩ | ⟨hok, hrun⟩ <;>
    rcases b'.execute_addNode template layer order' with ⟨e', he', hrun'⟩ | ⟨hok', hrun'⟩
  · obtain rfl : e = e' := Except.error.inj (he.symm.trans (hlayer.trans he'))
    exact .inl ⟨e, hrun, hrun'⟩
  · rw [he, hok'] at hlayer
    cases hlayer
  · rw [hok, he'] at hlayer
    cases hlayer
  · have hnode := outline_instantiate h template layer order order'
    have hstored : (b.storeNode (b.instantiate template layer order)).outline =
        (b'.storeNode (b'.instantiate template layer order')).outline := by
      rw [outline_storeNode, outline_storeNode, h, hnode]
    exact .inr ⟨_, _, _, _, hrun, hrun', hnode, congrArg countChange hstored⟩

end Board

/-! ### Aliases -/

namespace References

variable {s s' : References} {n n' : Node}

/-- Every alias is held for the same reason, by nodes of the same id. -/
def SameHolders (s s' : References) : Prop :=
  ∀ name, (s.aliases.get? name).map (fun held => (held.node.id, held.rank)) =
    (s'.aliases.get? name).map fun held => (held.node.id, held.rank)

theorem SameHolders.grants_eq (h : s.SameHolders s') (name : String) (rank : AliasRank) :
    s.grants name rank = s'.grants name rank := by
  have hgrants (s : References) : s.grants name rank =
      ((s.aliases.get? name).map fun held => (held.node.id, held.rank)).all fun held => held.2.strength ≤ rank.strength := by
    unfold grants
    cases s.aliases.get? name <;> rfl
  rw [hgrants, h name, hgrants]

theorem SameHolders.bind (h : s.SameHolders s') (hid : n.id = n'.id) (name : String) (rank : AliasRank)
    (table table' : PinTable) : (s.bind name rank n table).SameHolders (s'.bind name rank n' table') := by
  intro other
  unfold References.bind
  rw [KeyMap.get?_insert, KeyMap.get?_insert]
  split
  · exact congrArg (fun id => some (id, rank)) hid
  · exact h other

theorem SameHolders.grantAll (h : s.SameHolders s') (hid : n.id = n'.id) (table table' : PinTable) (granted : List String)
    (requests : List (String × AliasRank)) :
    (References.grantAll n table s granted requests).1.SameHolders (References.grantAll n' table' s' granted requests).1 ∧
      (References.grantAll n table s granted requests).2 = (References.grantAll n' table' s' granted requests).2 := by
  induction requests generalizing s s' granted with
  | nil => exact ⟨h, rfl⟩
  | cons request r ih =>
    unfold References.grantAll
    rw [h.grants_eq]
    split
    · exact ih (h.bind hid _ _ _ _) _
    · exact ih h _

/-- Nodes that differ in what their pins are get the same aliases. -/
theorem SameHolders.register (h : s.SameHolders s') (hn : n.outline = n'.outline) (ref : Option String) (position : Nat) :
    (s.register n ref position).1.SameHolders (s'.register n' ref position).1 ∧
      (s.register n ref position).2 = (s'.register n' ref position).2 := by
  have hid : n.id = n'.id := congrArg (·.id) hn
  have hname : n.name = n'.name := congrArg (·.name) hn
  have hrequests : requests n ref position = requests n' ref position := by rw [requests, requests, hid, hname]
  unfold References.register
  rw [hrequests]
  exact h.grantAll hid _ _ _ _

end References

namespace Batch

variable {t : Setting} {orders orders' : Nat → List String} {s s' : Progress} {m m' : Memory}

/-! ### Runs -/

/-- Two runs at the same point that differ in what the pins of nodes are. -/
structure ApartInPins (x x' : Progress × Memory) : Prop where
  board : x.2.board.outline = x'.2.board.outline
  view : x.1.view.outline = x'.1.view.outline
  holders : x.1.refs.SameHolders x'.1.refs
  outcomes : x.1.outcomes = x'.1.outcomes
  created : x.1.created = x'.1.created
  notices : x.1.notices = x'.1.notices

theorem ApartInPins.failed (h : ApartInPins (s, m) (s', m')) (i : Item) (e : ApplyError) :
    ApartInPins (s.failed i e, m) (s'.failed i e, m') where
  board := h.board
  view := h.view
  holders := h.holders
  outcomes := congrArg (fun l : List Outcome => l ++ [⟨i.index, i.command.kind, .failed e.message⟩]) h.outcomes
  created := h.created
  notices := congrArg (fun l : List Notice => l ++ _) h.notices

theorem ApartInPins.addNode (h : ApartInPins (s, m) (s', m')) (i : Item) (ref : Option String) {n n' : Node}
    (hn : n.outline = n'.outline) {last last' : Memory} (hlast : last.board.outline = last'.board.outline) :
    ApartInPins (s.addNode i ref n, last) (s'.addNode i ref n', last') := by
  have hid : n.id = n'.id := congrArg (·.id) hn
  have hrefs : s.refs.SameHolders s'.refs := h.holders
  obtain ⟨hholders, haliases⟩ := hrefs.register hn ref i.index
  have hnodes : ({ s.view with nodes := s.view.nodes.insert n.id n } : Board).outline =
      { s'.view with nodes := s'.view.nodes.insert n'.id n' }.outline := by
    have hinsert (view : Board) (n : Node) : ({ view with nodes := view.nodes.insert n.id n } : Board).outline =
        { view.outline with nodes := view.outline.nodes.insert n.id n.outline } :=
      congrArg (fun nodes => { view.outline with nodes }) (KeyMap.mapValues_insert _ _ _ _)
    rw [hinsert, hinsert, hn, hid, show s.view.outline = s'.view.outline from h.view]
  refine ⟨hlast, hnodes, hholders, ?_, ?_, h.notices⟩
  · show s.outcomes ++ [⟨i.index, i.command.kind, .applied n.id⟩] =
      s'.outcomes ++ [⟨i.index, i.command.kind, .applied n'.id⟩]
    rw [show s.outcomes = s'.outcomes from h.outcomes, hid]
  · show s.created ++ [⟨n.id, (s.refs.register n ref i.index).2⟩] =
      s'.created ++ [⟨n'.id, (s'.refs.register n' ref i.index).2⟩]
    rw [show s.created = s'.created from h.created, hid, haliases]

theorem apartInPins_create (h : ApartInPins (s, m) (s', m')) (cell : Spot) (order order' : List String) (i : Item) :
    ApartInPins ((create ⟨t, orders⟩ s cell order i).run Memory.facility m)
      ((create ⟨t, orders'⟩ s' cell order' i).run Memory.facility m') := by
  have hcreation : i.command.action.creation t.catalog s.view = i.command.action.creation t.catalog s'.view := by
    simp only [Action.creation, Board.viewLayer?_congr h.view]
  unfold create
  dsimp only
  rw [hcreation]
  cases i.command.action.creation t.catalog s'.view with
  | error e => exact h.failed i e
  | ok c =>
    rcases Board.outline_execute_addNode h.board { c.template with place := (c.spot.getD cell).place 0 } c.layer order order'
      with ⟨e, he, he'⟩ | ⟨last, last', n, n', hn, hn', hnode, hlast⟩
    · simp only [Session.run, Memory.facility, Memory.execute, he, he']
      exact h.failed i _
    · simp only [Session.run, Memory.facility, Memory.execute, hn, hn', Receipt.node?]
      exact h.addNode i c.ref hnode hlast

theorem apartInPins_createAll (t : Setting) (orders orders' : Nat → List String) (h : ApartInPins (s, m) (s', m'))
    (start : Spot) (n : Nat) (l : List Item) :
    ApartInPins ((createAll ⟨t, orders⟩ start n s l).run Memory.facility m)
      ((createAll ⟨t, orders'⟩ start n s' l).run Memory.facility m') := by
  induction l generalizing n s s' m m' with
  | nil => exact h
  | cons i r ih =>
    rw [run_createAll_cons, run_createAll_cons]
    exact ih (apartInPins_create h _ _ _ i) (n + 1)

/-- Commands that make no nodes leave what has come of those that do. -/
theorem run_carryOutAll_made (t : Occasion) (l : List Item) (outdated : Bool) (s : Progress) (m : Memory) :
    ((carryOutAll t outdated s l).run Memory.facility m).1.created = s.created ∧
      s.outcomes <+: ((carryOutAll t outdated s l).run Memory.facility m).1.outcomes := by
  refine keeps_carryOutAll Memory.settled (I := fun x => x.1.created = s.created ∧ s.outcomes <+: x.1.outcomes) l
    (fun outdated i _ s' m' h => ?_) outdated ⟨rfl, List.prefix_rfl⟩
  have hperform (p : Progress) (hp : p.created = s.created ∧ s.outcomes <+: p.outcomes) :
      ((perform t p i).run Memory.facility m').1.created = s.created ∧
        s.outcomes <+: ((perform t p i).run Memory.facility m').1.outcomes := by
    rcases run_perform_cases t p i m' with ⟨e, -, hrun⟩ | ⟨_, -, ⟨e, -, hrun⟩ | ⟨r, -, hrun⟩⟩ <;> rw [hrun]
    all_goals exact ⟨hp.1, hp.2.trans (List.prefix_append _ _)⟩
  unfold carryOut
  split
  · rw [Session.run_bind, run_refresh]
    exact hperform _ h
  · exact hperform _ h

/-- In whatever orders new nodes get the ids of their pins, a batch makes the same nodes under the same aliases, and the
    commands that make them come to the same. -/
theorem creations_in_any_order (t : Setting) (orders orders' : Nat → List String) (commands : List Command) (m : Memory) :
    let report (orders : Nat → List String) := ((apply ⟨t, orders⟩ m.board commands).run Memory.facility m).1.1
    (report orders).created = (report orders').created ∧
      ∀ (i : Nat) (c : Command), commands[i]? = some c → c.createsNode = true →
        (report orders).outcome? i = (report orders').outcome? i := by
  intro report
  -- The nodes are made in the first round; the second adds the outcomes of the other commands.
  let creations := (items commands).filter (·.command.createsNode == true)
  let made (orders : Nat → List String) : Progress :=
    ((createAll ⟨t, orders⟩ (t.grid.start m.board) 0 (.begin m.board) creations).run Memory.facility m).1
  have hmade (orders : Nat → List String) :
      (report orders).created = (made orders).created ∧ (made orders).outcomes <+: (report orders).outcomes := by
    have hrun := run_carryOutAll_made ⟨t, orders⟩ ((items commands).filter (·.command.createsNode == false)) false
    simp only [report, apply, partition_items, Session.run_bind]
    exact hrun _ _
  have hbegin : ApartInPins (.begin m.board, m) (.begin m.board, m) := ⟨rfl, rfl, fun _ => rfl, rfl, rfl, rfl⟩
  have hapart := apartInPins_createAll t orders orders' hbegin (t.grid.start m.board) 0 creations
  refine ⟨(hmade orders).1.trans (hapart.created.trans (hmade orders').1.symm), fun i c hc hcreates => ?_⟩
  have hfound (orders : Nat → List String) :
      (report orders).outcome? i = (made orders).outcomes.find? (·.index = i) := by
    obtain ⟨outcomes, hreported⟩ := (deals_createAll ⟨t, orders⟩ (t.grid.start m.board) creations 0 (.begin m.board)).run
      Memory.facility m
    have hadded : (made orders).outcomes = outcomes := hreported.added
    have hitem : (⟨i, c⟩ : Item) ∈ creations := List.mem_filter.mpr ⟨mem_items.mpr hc, by simp [hcreates]⟩
    have hindex : i ∈ (made orders).outcomes.map (·.index) := by
      rw [hadded, hreported.map_index]
      exact List.mem_map_of_mem hitem
    obtain ⟨o, ho, hi⟩ := List.mem_map.mp hindex
    have hsome : ((made orders).outcomes.find? (·.index = i)).isSome := List.find?_isSome.mpr ⟨o, ho, decide_eq_true hi⟩
    obtain ⟨rest, hrest⟩ := (hmade orders).2
    rw [Report.outcome?, ← hrest, List.find?_append, Option.or_of_isSome hsome]
  rw [hfound, hfound]
  exact congrArg (List.find? _) hapart.outcomes

/-- The nodes that a run has made are those of a run in any other orders. -/
theorem created_of_run {b : Board} {commands : List Command} {report : Report} {notices : List Notice}
    (orders' : Nat → List String)
    (h : (apply ⟨t, orders⟩ b commands).run Memory.facility (.ofBoard b) = ((report, notices), m)) :
    report.created.map (·.node) =
      ((apply ⟨t, orders'⟩ b commands).run Memory.facility (.ofBoard b)).1.1.created.map (·.node) := by
  have hcreated : ((apply ⟨t, orders⟩ b commands).run Memory.facility (.ofBoard b)).1.1.created =
      ((apply ⟨t, orders'⟩ b commands).run Memory.facility (.ofBoard b)).1.1.created :=
    (creations_in_any_order t orders orders' commands (.ofBoard b)).1
  rw [h] at hcreated
  rw [← hcreated]

end Batch

end Workboard
