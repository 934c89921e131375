import Workboard.Proofs.BarePins
import Workboard.Proofs.HandedOut
import Workboard.Proofs.NodeIds
import Workboard.Proofs.PinRoundTrip
import Workboard.Proofs.Recorded

/-! What the reference to a made node means.

A batch makes a node under an id that no copy of a node has. From then on a look-up of the id gives this node, as
references see it, or nothing, even on a board that keeps other nodes under keys that are not their ids (`Board.Shows`);
only the removal of the node makes a difference to this (`Board.Shows.execute`). The reference goes on to mean the node,
unless a later command makes a node with the same reference (`Batch.reference_lasts`). -/

namespace Workboard

namespace Board

variable {b : Board} {n m : Node} {id : String}

/-- What a board has under the id of a node is this node, as references see it: every copy with the id is alike and under it,
    and the copy at board level, which counts before all others, is one of them. -/
structure Shows (b : Board) (n : Node) : Prop where
  copies : ∀ shelf key m, b.copy? shelf key = some m → m.id = n.id → key = n.id ∧ m.bare = n.bare
  top : ∀ shelf m, b.copy? shelf n.id = some m → ∃ own, b.copy? none n.id = some own ∧ own.id = n.id

theorem Shows.node? (h : b.Shows n) (hm : b.node? n.id = some m) : m.bare = n.bare := by
  obtain ⟨shelf, hcopy⟩ := copy?_of_node? hm
  obtain ⟨own, hown, hid⟩ := h.top shelf m hcopy
  obtain rfl : own = m := Option.some.inj ((node?_of_copy?_none hown).symm.trans hm)
  exact (h.copies none n.id own hown hid).2

/-- If the node itself is found under some key, this is its id. -/
theorem Shows.of_node? (h : b.Shows n) (hm : b.node? id = some m) (hid : m.id = n.id) : id = n.id ∧ m.bare = n.bare := by
  obtain ⟨shelf, hcopy⟩ := copy?_of_node? hm
  exact h.copies shelf id m hcopy hid

/-! ### Elementary changes -/

theorem Shows.editNode (h : b.Shows n) (id : String) {f : Node → Node} (hf : ∀ m, (f m).bare = m.bare) :
    (b.editNode id f).Shows n := by
  refine ⟨fun shelf key m' hm' hid => ?_, fun shelf m' hm' => ?_⟩
  · rw [copy?_editNode] at hm'
    split at hm'
    · obtain ⟨m, hm, rfl⟩ := Option.map_eq_some_iff.mp hm'
      obtain ⟨hkey, hbare⟩ := h.copies shelf key m hm ((Node.id_eq_of_bare (hf m)).symm.trans hid)
      exact ⟨hkey, (hf m).trans hbare⟩
    · exact h.copies shelf key m' hm' hid
  · rw [copy?_editNode] at hm' ⊢
    by_cases hkey : id = n.id
    · rw [if_pos hkey] at hm' ⊢
      obtain ⟨m, hm, -⟩ := Option.map_eq_some_iff.mp hm'
      obtain ⟨own, hown, hid⟩ := h.top shelf m hm
      exact ⟨f own, by rw [hown]; rfl, (Node.id_eq_of_bare (hf own)).trans hid⟩
    · rw [if_neg hkey] at hm' ⊢
      exact h.top shelf m' hm'

theorem Shows.editNodes (h : b.Shows n) (ids : List String) {f : Node → Node} (hf : ∀ m, (f m).bare = m.bare) :
    (b.editNodes ids f).Shows n :=
  board_editNodes (P := (Shows · n)) h (fun _ id h => h.editNode id hf) ids

/-- A node that is found is replaced by one that is alike. -/
theorem Shows.replace (h : b.Shows n) (hm : b.node? id = some m) {m' : Node} (hid : m'.id = id) (hbare : m'.bare = m.bare) :
    (b.editNode id fun _ => m').Shows n := by
  refine ⟨fun shelf key o ho hn => ?_, fun shelf o ho => ?_⟩
  · rw [copy?_editNode] at ho
    split at ho
    · rename_i hkey
      obtain ⟨-, -, rfl⟩ := Option.map_eq_some_iff.mp ho
      obtain ⟨-, hm⟩ := h.of_node? hm ((Node.id_eq_of_bare hbare).symm.trans hn)
      exact ⟨hkey.symm.trans (hid.symm.trans hn), hbare.trans hm⟩
    · exact h.copies shelf key o ho hn
  · rw [copy?_editNode] at ho ⊢
    by_cases hkey : id = n.id
    · rw [if_pos hkey] at ho ⊢
      obtain ⟨o', ho', -⟩ := Option.map_eq_some_iff.mp ho
      obtain ⟨own, hown, -⟩ := h.top shelf o' ho'
      exact ⟨m', by rw [hown]; rfl, hid.trans hkey⟩
    · rw [if_neg hkey] at ho ⊢
      exact h.top shelf o ho

theorem Shows.dropNode (h : b.Shows n) (id : String) : (b.dropNode id).Shows n := by
  refine ⟨fun shelf key m hm hid => ?_, fun shelf m hm => ?_⟩
  · rw [copy?_dropNode] at hm
    split at hm
    · cases hm
    · exact h.copies shelf key m hm hid
  · rw [copy?_dropNode] at hm ⊢
    by_cases hkey : id = n.id
    · rw [if_pos hkey] at hm
      cases hm
    · rw [if_neg hkey] at hm ⊢
      exact h.top shelf m hm

theorem Shows.unmirror (h : b.Shows n) (id : String) : (b.unmirror id).Shows n where
  copies shelf key m hm hid := h.copies shelf key m (copy?_unmirror_cases hm).1 hid
  top shelf m hm := h.top shelf m (copy?_unmirror_cases hm).1

theorem Shows.storeNode (h : b.Shows n) (hm : m.id = n.id → m.bare = n.bare) : (b.storeNode m).Shows n := by
  refine ⟨fun shelf key o ho hid => ?_, fun shelf o ho => ?_⟩
  · rcases copy?_storeNode_cases ho with ho | ⟨rfl, rfl⟩
    · exact h.copies shelf key o ho hid
    · exact ⟨hid, hm hid⟩
  · by_cases hid : m.id = n.id
    · exact ⟨m, by rw [copy?_storeNode_none, if_pos hid], hid⟩
    · rw [copy?_storeNode_of_ne hid] at ho ⊢
      exact h.top shelf o ho

theorem Shows.assignLayer (h : b.Shows n) (id : String) (layer : Option String) : (b.assignLayer id layer).Shows n := by
  unfold Board.assignLayer
  cases hm : b.node? id with
  | none => exact h
  | some m => exact (h.unmirror id).storeNode (m := { m with layer }) fun hid => (h.of_node? hm hid).2

theorem Shows.assignLayers (h : b.Shows n) (ids : List String) (layer : Option String) :
    (b.assignLayers ids layer).Shows n :=
  board_assignLayers (P := (Shows · n)) h (fun _ id h => h.assignLayer id layer) ids

theorem Shows.countChange (h : b.Shows n) : b.countChange.Shows n := ⟨h.copies, h.top⟩

/-- What has fewer copies in layers. -/
theorem Shows.of_copies {b' : Board} (h : b.Shows n) (htop : ∀ key, b'.copy? none key = b.copy? none key)
    (hlayers : ∀ layer key m, b'.copy? (some layer) key = some m → ∃ shelf, b.copy? shelf key = some m) : b'.Shows n := by
  have hcopies : ∀ shelf key m, b'.copy? shelf key = some m → ∃ shelf, b.copy? shelf key = some m := by
    intro shelf key m hm
    cases shelf with
    | none => exact ⟨none, (htop key).symm.trans hm⟩
    | some layer => exact hlayers layer key m hm
  refine ⟨fun shelf key m hm hid => ?_, fun shelf m hm => ?_⟩
  · obtain ⟨shelf, hm⟩ := hcopies shelf key m hm
    exact h.copies shelf key m hm hid
  · obtain ⟨shelf, hm⟩ := hcopies shelf n.id m hm
    rw [htop]
    exact h.top shelf m hm

theorem Shows.storeLayer (h : b.Shows n) {l : Layer} (hl : l.nodes = ∅) : (b.storeLayer l).Shows n := by
  refine h.of_copies (fun _ => rfl) fun layer key m hm => ?_
  rw [copy?_storeLayer_some] at hm
  split at hm
  · rw [nodes_storedLayer] at hm
    split at hm
    · rename_i existing he
      exact ⟨_, copy?_some_eq_some.mpr ⟨existing, he, hm⟩⟩
    · rw [hl] at hm
      cases hm
  · exact ⟨_, hm⟩

theorem Shows.dissolveLayer (h : b.Shows n) (id : String) (parent : Option String) : (b.dissolveLayer id parent).Shows n := by
  refine h.of_copies (fun _ => rfl) fun layer key m hm => ?_
  rw [copy?_dissolveLayer_some] at hm
  split at hm
  · cases hm
  · exact ⟨_, hm⟩

/-! ### Mutations -/

theorem Shows.removeNode (h : b.Shows n) (id : String) : (b.removeNode id).board.Shows n :=
  Effect.board_given (P := (Shows · n)) h fun m _ => (h.dropNode id).editNodes ((b.dropNode id).neighbours m.pins.keys) fun o =>
    o.bare_disconnectFrom m.pins.keys

theorem Shows.perform (h : b.Shows n) {m : Mutation} (hm : m.Proper) (hmakes : m.makesNode = false) :
    (b.perform m).board.Shows n := by
  have ends : ∀ (w : Wire) {f g : Pin → Pin}, (∀ p, (f p).bare = p.bare) → (∀ p, (g p).bare = p.bare) →
      ((b.editNode w.fromNode (·.editPin w.fromPin f)).editNode w.toNode (·.editPin w.toPin g)).Shows n :=
    fun w f g hf hg => (h.editNode _ fun o => o.bare_editPin hf _).editNode _ fun o => o.bare_editPin hg _
  have hmoved : ∀ id goal, (b.editNode id fun o => { o with place := goal }).Shows n := fun id _ => h.editNode id fun _ => rfl
  refine board_perform (P := (Shows · n)) fun b' hb' => ?_
  cases hb' with
  | refused | upsertVariable | removeVariable | upsertComment | removeComment => exact ⟨h.copies, h.top⟩
  | addNode => cases hmakes
  | removeNode => exact h.removeNode _
  | connect | disconnect => exact ends _ (fun _ => rfl) fun _ => rfl
  | @updateNode _ _ current hnode hsame =>
    obtain ⟨old, pin, value, rfl, rfl⟩ := hm
    have hbeq : (old == current) = true := by simpa [bne] using hsame
    obtain ⟨hid, hpins, -⟩ := Node.parts_of_beq hbeq
    have hold : old.bare = current.bare := Node.bare_congr hid fun k => by rw [hpins]
    exact h.replace hnode rfl ((old.bare_withDefault pin value).trans hold)
  | moveNode => exact hmoved _ _
  | moveInto => exact (hmoved _ _).assignLayer _ _
  | upsertLayer => exact (h.storeLayer hm.2.1).assignLayers _ _
  | addToLayer | removeFromLayer => exact h.assignLayers _ _
  | removeLayer => exact (h.assignLayers _ _).dissolveLayer _ _
  | removeWhole | removePart => cases hm

/-- A mutation that makes no node leaves of the node what there is or nothing. -/
theorem Shows.execute (h : b.Shows n) {m : Mutation} (hm : m.Proper) (hmakes : m.makesNode = false) :
    (b.execute m).board.Shows n :=
  board_execute (P := (Shows · n)) (h.perform hm hmakes) fun _ h => h.countChange

/-- A node that is stored under a new id is what the board has under it. -/
theorem shows_storeNode (hn : n.id ∉ b.nodeIds) : (b.storeNode n).Shows n := by
  refine ⟨fun shelf key m hm hid => ?_, fun shelf m _ => ⟨n, by rw [copy?_storeNode_none, if_pos rfl], rfl⟩⟩
  rcases copy?_storeNode_cases hm with hm | ⟨rfl, rfl⟩
  · exact absurd (mem_nodeIds.mpr ⟨shelf, key, m, hm, hid⟩) hn
  · exact ⟨rfl, rfl⟩

end Board

/-! ### References -/

namespace References

variable {s : References} {b : Board} {r : Registration} {name ref : String} {n : Node}

/-- A reference of a command's own goes to the node that the command makes. -/
theorem get?_register_of_ref (s : References) (href : (r.ref.map Text.trim).filter (· ≠ "") = some name) :
    (s.register r.node r.ref r.position).1.aliases.get? name = some ⟨r.node, .explicit⟩ := by
  have hoffer : r.offer name = some .explicit := by rw [Registration.offer, if_pos href]
  have hgrants : s.grants name .explicit = true := by
    unfold grants
    split
    · rename_i held _
      cases held.rank <;> rfl
    · rfl
  have hsettles := s.register_settles r name
  rw [Settles, hoffer, Option.filter_some, if_pos hgrants] at hsettles
  exact hsettles.1

/-- Only another command's reference can take it from there. -/
theorem get?_register_of_held (hheld : s.aliases.get? name = some ⟨n, .explicit⟩)
    (href : (r.ref.map Text.trim).filter (· ≠ "") ≠ some name) :
    (s.register r.node r.ref r.position).1.aliases.get? name = some ⟨n, .explicit⟩ := by
  have hnone : (r.offer name).filter (s.grants name) = none := by
    refine Option.filter_eq_none_iff.mpr fun rank hoffer hgrant => ?_
    -- Nothing but a reference is as strong as one.
    unfold Registration.offer at hoffer
    rw [if_neg href] at hoffer
    unfold grants at hgrant
    rw [hheld] at hgrant
    cases rank with
    | explicit => split_ifs at hoffer <;> cases hoffer
    | typeName | positional => exact absurd hgrant Bool.false_ne_true
  have hsettles := s.register_settles r name
  rw [Settles, hnone] at hsettles
  exact hsettles.1.trans hheld

/-- The reference means the node as the board has it, and its pins are found as by a new table. -/
theorem node_of_held (hs : s.Traced b) (hn : n.pins.Keyed Pin.id) {rank : AliasRank}
    (hheld : s.aliases.get? (Text.trim ref) = some ⟨n, rank⟩) {view : Board}
    (hview : ∀ m, view.node? n.id = some m → m.bare = n.bare) :
    ∃ m, s.node view ref = .ok m ∧ m.bare = n.bare ∧
      ∀ pinRef, (s.pin ref m pinRef).toOption = (PinTable.ofNode m).resolve? pinRef := by
  have hbare : ((view.node? n.id).getD n).bare = n.bare := by
    cases hm : view.node? n.id with
    | none => rfl
    | some m => exact hview m hm
  refine ⟨(view.node? n.id).getD n, ?_, hbare, fun pinRef => ?_⟩
  · unfold node
    dsimp only
    rw [hheld]
  · have hrecorded : s.recordedNode? b ref n = some n := by
      rw [recordedNode?, source?, hheld, Option.some_or]
    rw [pin_congr hbare, hs.toOption_pin hn hrecorded subset_rfl (fun p hp => PinTable.mem_pinIds_of_find? hp),
      ← PinTable.ofNode_bare, ← hbare, PinTable.ofNode_bare]

end References

/-- The alias that a command asks for by the reference that it gives to its node; a blank one asks for none. -/
def Action.alias? (a : Action) : Option String := (a.ref?.map Text.trim).filter (· ≠ "")

theorem Action.createsNode_of_alias? {a : Action} {name : String} (h : a.alias? = some name) : a.createsNode = true := by
  cases a <;> first | rfl | cases h

namespace Batch

variable {t : Occasion} {s : Progress} {m : Memory} {i : Item} {b : Board} {commands : List Command} {k : Nat} {name id : String}
  {n : Node}

/-- A later command was applied that gives the same reference to its node. -/
def Rebinds (commands : List Command) (k : Nat) (name : String) (o : Outcome) : Prop :=
  k < o.index ∧ o.isApplied = true ∧ ∃ c, commands[o.index]? = some c ∧ c.action.alias? = some name

/-- While nodes are made: a reference means a node, which is on the board and on the view. -/
structure Bound (name : String) (n : Node) (x : Progress × Memory) : Prop where
  held : x.1.refs.aliases.get? name = some ⟨n, .explicit⟩
  view : x.1.view.nodes.get? n.id = some n
  board : x.2.board.Shows n
  used : n.id ∈ x.2.board.nodeIds

/-- How the making of a node goes on. -/
theorem run_createAll_append {σ : Type} {f : Facility σ} (start : Spot) (first : Nat) (l r : List Item) (m : σ) :
    (createAll t start first s (l ++ r)).run f m =
      (createAll t start (first + l.length) ((createAll t start first s l).run f m).1 r).run f
        ((createAll t start first s l).run f m).2 := by
  induction l generalizing s first m with
  | nil => rfl
  | cons i l ih =>
    rw [List.cons_append, run_createAll_cons, run_createAll_cons, ih, List.length_cons, Nat.add_right_comm, Nat.add_assoc]

/-- The first node with a reference is bound to it. -/
theorem bound_addNode (hname : i.command.action.alias? = some name) {journal : List Mutation} (hn : n.id ∉ m.board.nodeIds) :
    Bound name n (s.addNode i i.command.action.ref? n, ⟨(m.board.storeNode n).countChange, journal⟩) where
  held := s.refs.get?_register_of_ref (r := ⟨n, i.command.action.ref?, i.index⟩) hname
  view := by
    show (s.view.nodes.insert n.id n).get? n.id = some n
    rw [KeyMap.get?_insert, if_pos rfl]
  board := (Board.shows_storeNode hn).countChange
  used := by
    refine Board.mem_nodeIds.mpr ⟨none, n.id, n, ?_, rfl⟩
    show (m.board.storeNode n).copy? none n.id = some n
    rw [Board.copy?_storeNode_none, if_pos rfl]

/-- It stays bound to it when another node is made, unless that has the same reference. -/
theorem Bound.addNode (h : Bound name n (s, m)) (hname : i.command.action.alias? ≠ some name) {n' : Node}
    {journal : List Mutation} (hn : n'.id ∉ m.board.nodeIds) :
    Bound name n (s.addNode i i.command.action.ref? n', ⟨(m.board.storeNode n').countChange, journal⟩) := by
  have hne : n'.id ≠ n.id := fun he => hn (he ▸ h.used)
  have hshows := h.board.storeNode (m := n') fun he => absurd he hne
  refine ⟨References.get?_register_of_held (r := ⟨n', i.command.action.ref?, i.index⟩) h.held hname, ?_,
    hshows.countChange, ?_⟩
  · show (s.view.nodes.insert n'.id n').get? n.id = some n
    rw [KeyMap.get?_insert, if_neg hne]
    exact h.view
  · obtain ⟨shelf, key, o, ho, hid⟩ := Board.mem_nodeIds.mp h.used
    have hkey := (h.board.copies shelf key o ho hid).1
    refine Board.mem_nodeIds.mpr ⟨shelf, key, o, ?_, hid⟩
    show (m.board.storeNode n').copy? shelf key = some o
    rw [Board.copy?_storeNode_of_ne (hkey ▸ hne)]
    exact ho

theorem nodeId_instantiate (b : Board) (template : Node) (layer : Option String) (order : List String) :
    (b.instantiate template layer order).id ∉ b.nodeIds := fun h =>
  b.freshId_notMem_usedIds "node" (Board.nodeId_mem_usedIds h)

theorem bound_create (h : Bound name n (s, m)) (hc : commands[i.index]? = some i.command) (hlater : k < i.index) (cell : Spot)
    (order : List String) :
    let next := (create t s cell order i).run Memory.facility m
    (∃ o ∈ next.1.outcomes, Rebinds commands k name o) ∨ Bound name n next := by
  intro next
  rcases run_create_cases t s cell order i m with ⟨e, hrun⟩ | ⟨made, n', hmade, rfl, hrun⟩
  · rw [show next = _ from hrun]
    exact Or.inr ⟨h.held, h.view, h.board, h.used⟩
  · rw [show next = _ from hrun, Action.ref_creation hmade]
    by_cases hname : i.command.action.alias? = some name
    · refine Or.inl ⟨_, List.mem_append_right _ (List.mem_singleton_self _), hlater, rfl, i.command, hc, hname⟩
    · exact Or.inr (h.addNode hname (nodeId_instantiate _ _ _ _))

/-! ### Batches -/

/-- The outcome of a command that makes a node is reported. -/
theorem outcome?_of_making {o : Outcome} (ho : o ∈ (making t b commands).1.outcomes) :
    ((apply t b commands).run Memory.facility (.ofBoard b)).1.1.outcome? o.index = some o :=
  outcome?_of_upTo (k := 0) ho

/-- A command that makes a node is carried out when the nodes before it are made, and then those after it are. -/
theorem exists_making_eq (t : Occasion) (b : Board) {c : Command} (hc : commands[k]? = some c) (hmakes : c.createsNode = true) :
    ∃ (s : Progress) (m : Memory) (cell : Spot) (order : List String) (first : Nat) (after : List Item),
      (∀ i ∈ after, commands[i.index]? = some i.command ∧ k < i.index) ∧
      let made := (create t s cell order ⟨k, c⟩).run Memory.facility m
      making t b commands = (createAll t (t.grid.start b) first made.1 after).run Memory.facility made.2 := by
  have hitem : (⟨k, c⟩ : Item) ∈ (items commands).filter (·.command.createsNode == true) :=
    List.mem_filter.mpr ⟨mem_items.mpr hc, by simp [hmakes]⟩
  obtain ⟨before, after, hsplit⟩ := List.append_of_mem hitem
  have hsorted : ((items commands).filter (·.command.createsNode == true)).Pairwise fun i j => i.index < j.index := by
    refine List.Pairwise.filter _ (List.pairwise_map.mp ?_)
    rw [map_index_items]
    exact List.pairwise_lt_range
  have hmem : ∀ i ∈ after, i ∈ (items commands).filter (·.command.createsNode == true) := fun i hi => by
    rw [hsplit]
    exact List.mem_append_right _ (List.mem_cons_of_mem _ hi)
  rw [hsplit] at hsorted
  let x := (createAll t (t.grid.start b) 0 (.begin b) before).run Memory.facility (.ofBoard b)
  refine ⟨x.1, x.2, t.grid.cell (t.grid.start b) (0 + before.length), t.pinOrder (0 + before.length),
    0 + before.length + 1, after, fun i hi => ⟨?_, ?_⟩, ?_⟩
  · exact mem_items.mp (List.mem_of_mem_filter (hmem i hi))
  · exact (List.pairwise_cons.mp (List.pairwise_append.mp hsorted).2.1).1 i hi
  · rw [making, hsplit, run_createAll_append, run_createAll_cons]

/-- Once bound, a node stays so while others are made, unless its reference is taken. -/
theorem bound_createAll (h : Bound name n (s, m)) {l : List Item}
    (hl : ∀ i ∈ l, commands[i.index]? = some i.command ∧ k < i.index) (start : Spot) (first : Nat) :
    let next := (createAll t start first s l).run Memory.facility m
    (∃ o ∈ next.1.outcomes, Rebinds commands k name o) ∨ Bound name n next := by
  refine keeps_createAll (I := fun x : Progress × Memory => (∃ o ∈ x.1.outcomes, Rebinds commands k name o) ∨ Bound name n x)
    start l first (fun cell _ i hi s m hs => ?_) (Or.inr h)
  rcases hs with ⟨o, ho, hrebinds⟩ | hs
  · obtain ⟨more, hmore⟩ := (deals_create t s (t.grid.cell start cell) (t.pinOrder cell) i).run Memory.facility m
    exact Or.inl ⟨o, hmore.added ▸ List.mem_append_left more ho, hrebinds⟩
  · exact bound_create hs (hl i hi).1 (hl i hi).2 _ _

/-- The node that a command with a reference has made is bound to it when all nodes are made, unless a later command has
    taken the reference. -/
theorem exists_bound_making {c : Command} (hc : commands[k]? = some c) (halias : c.action.alias? = some name)
    (happlied : ((apply t b commands).run Memory.facility (.ofBoard b)).1.1.outcome? k = some ⟨k, c.kind, .applied id⟩)
    (hlast : ∀ o ∈ ((apply t b commands).run Memory.facility (.ofBoard b)).1.1.outcomes, ¬ Rebinds commands k name o) :
    ∃ (view : Board) (made : Creation) (place : Place) (n : Node), c.action.creation t.catalog view = .ok made ∧
      n.MadeOf { made.template with place } made.layer ∧ n.id = id ∧ Bound name n (making t b commands) := by
  obtain ⟨s, m, cell, order, first, after, hafter, hmaking⟩ := exists_making_eq t b hc (Action.createsNode_of_alias? halias)
  -- What the command came to then is what is reported.
  have hreported {o : Outcome} (ho : o ∈ ((create t s cell order ⟨k, c⟩).run Memory.facility m).1.outcomes) :
      ((apply t b commands).run Memory.facility (.ofBoard b)).1.1.outcome? o.index = some o := by
    refine outcome?_of_making ?_
    obtain ⟨more, hmore⟩ := (deals_createAll t (t.grid.start b) after first _).run Memory.facility
      ((create t s cell order ⟨k, c⟩).run Memory.facility m).2
    rw [hmaking, hmore.added]
    exact List.mem_append_left more ho
  rcases run_create_cases t s cell order ⟨k, c⟩ m with ⟨e, hrun⟩ | ⟨made, n, hmade, rfl, hrun⟩
  · rw [hrun] at hreported
    have hfailed := hreported (List.mem_append_right _ (List.mem_singleton_self _))
    cases happlied.symm.trans hfailed
  · rw [hrun] at hreported hmaking
    have hdone := hreported (List.mem_append_right _ (List.mem_singleton_self _))
    refine ⟨s.view, made, (made.spot.getD cell).place 0, _, hmade, (m.board.madeOf_instantiate _ _ order).1, ?_, ?_⟩
    · cases happlied.symm.trans hdone
      rfl
    · rw [Action.ref_creation hmade] at hmaking
      rcases bound_createAll (bound_addNode (i := ⟨k, c⟩) halias (nodeId_instantiate _ _ _ _)) hafter (t.grid.start b) first with
        ⟨o, ho, hrebinds⟩ | hbound
      · rw [← hmaking] at ho
        exact absurd hrebinds (hlast o (List.mem_of_find?_eq_some (outcome?_of_making ho)))
      · rw [hmaking]
        exact hbound

/-- While other commands are carried out: what there is of a made node is alike. -/
structure Lasts (refs : References) (n : Node) (x : Progress × Memory) : Prop where
  refs : x.1.refs = refs
  view : ∀ m, x.1.view.node? n.id = some m → m.bare = n.bare
  board : x.2.board.Shows n

theorem lasts_carryOut {refs : References} (h : Lasts refs n (s, m)) (outdated : Bool) (i : Item) :
    Lasts refs n ((carryOut t outdated s i).run Memory.facility m) := by
  obtain ⟨view, hview, hrun⟩ := run_carryOut_view t outdated s i m
  have hview : ∀ o, view.node? n.id = some o → o.bare = n.bare := by
    rcases hview with rfl | rfl
    · exact h.view
    · exact fun _ => h.board.node?
  rw [hrun]
  rcases run_perform_cases t { s with view } i m with ⟨e, -, hend⟩ | ⟨mutation, hm, hends⟩
  · rw [hend]
    exact ⟨h.refs, hview, h.board⟩
  · obtain ⟨hproper, hmakes⟩ := Action.proper_mutation hm
    have hboard := h.board.execute hproper hmakes
    rcases hends with ⟨e, -, hend⟩ | ⟨r, -, hend⟩
    all_goals
      rw [hend]
      exact ⟨h.refs, hview, hboard⟩

theorem lasts_upTo (h : Bound name n (making t b commands)) (k : Nat) :
    Lasts (references t b commands) n (upTo t b commands k) := by
  refine keeps_carryOutAll Memory.settled (I := Lasts (references t b commands) n) _
    (fun outdated i _ s m hs => lasts_carryOut hs outdated i) false ⟨rfl, fun m hm => ?_, h.board⟩
  have hnode : (making t b commands).1.view.node? n.id = some n := Board.node?_of_copy?_none h.view
  rw [Option.some.inj (hm.symm.trans hnode)]

theorem traced_references (t : Occasion) (b : Board) (commands : List Command) : (references t b commands).Traced b := by
  refine keeps_createAll (f := Memory.facility) (I := fun x => x.1.refs.Traced b) _ _ 0 (fun cell _ i _ s m hs => ?_)
    (References.traced_seed b)
  rcases run_create_cases t s (t.grid.cell (t.grid.start b) cell) (t.pinOrder cell) i m with ⟨e, hrun⟩ | ⟨made, n, -, -, hrun⟩
  · rw [hrun]
    exact hs
  · rw [hrun]
    exact hs.grantAll n _ _

/-- From the moment that all nodes are made, the reference of a command that made one means this node, as the board or the
    view has it, and all its pins are found as by a new table; unless a later command has taken the reference. -/
theorem reference_lasts {c : Command} (hc : commands[k]? = some c) {ref : String}
    (halias : c.action.alias? = some (Text.trim ref))
    (happlied : ((apply t b commands).run Memory.facility (.ofBoard b)).1.1.outcome? k = some ⟨k, c.kind, .applied id⟩)
    (hlast : ∀ o ∈ ((apply t b commands).run Memory.facility (.ofBoard b)).1.1.outcomes,
      ¬ Rebinds commands k (Text.trim ref) o) :
    ∃ (known : Board) (made : Creation) (place : Place) (n : Node), c.action.creation t.catalog known = .ok made ∧
      n.MadeOf { made.template with place } made.layer ∧ n.id = id ∧
      ∀ j view, view = boardAt t b commands j ∨ view = (upTo t b commands j).1.view →
        ∃ m, (references t b commands).node view ref = .ok m ∧ m.bare = n.bare ∧
          ∀ pin, ((references t b commands).pin ref m pin).toOption = (PinTable.ofNode m).resolve? pin := by
  obtain ⟨known, made, place, n, hmade, hn, hid, hbound⟩ := exists_bound_making hc halias happlied hlast
  refine ⟨known, made, place, n, hmade, hn, hid, fun j view hview => ?_⟩
  have hlasts := lasts_upTo hbound j
  refine References.node_of_held (traced_references t b commands) hn.keyed hbound.held ?_
  rcases hview with rfl | rfl
  · exact fun m hm => hlasts.board.node? hm
  · exact hlasts.view

end Batch

end Workboard
