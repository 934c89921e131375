import Workboard.Proofs.Comparison
import Workboard.Proofs.Documents
import Workboard.Proofs.Literals
import Workboard.Proofs.PinValue
import Workboard.Proofs.Removal

/-! The value that a batch sets at a pin, read again.

What a batch has come to at a position (`Batch.upTo`) is what the command there starts from, if that makes no node
(`Batch.upTo_succ`), and what is reported up to a position is reported at the end (`Batch.outcome?_of_upTo`). If the
references of a command that sets a pin's value mean a node on the board at its position and one of the node's pins, the
node is replaced by itself as it is there. So the board accepts it, unless a coordinate is undefined and the node differs
from itself (`Board.execute_withDefault`). The pin then has the value on every copy of the node (`Board.InStep.replaced`),
and the value is read and indexed as it was given (`Batch.apply_sets_value`). -/

namespace Workboard

/-- A pin of a node that is given another value. -/
theorem Node.get?_withDefault {n : Node} {pin : String} {p : Pin} (hp : n.pins.get? pin = some p) (value : List UInt8) :
    (n.withDefault pin value).pins.get? pin = some { p with defaultValue := some value } := by
  show (n.pins.modify pin _).get? pin = _
  rw [KeyMap.get?_modify, if_pos rfl, hp]
  rfl

namespace Board

variable {b : Board}

/-- A node that is as it is on the board is replaced by itself with another value at one of its pins. -/
theorem execute_withDefault {n : Node} (hn : b.node? n.id = some n) (hplace : n.place.Within (·.isNaN = false))
    (pin : String) (value : List UInt8) :
    b.execute (.updateNode (some n) (n.withDefault pin value)) =
      ⟨(b.editNode n.id fun _ => n.withDefault pin value).countChange, .ok (.storedNode (n.withDefault pin value))⟩ := by
  have hneed : b.needNode (n.withDefault pin value).id = .ok n := needNode_eq_ok.mpr hn
  have hfresh : ¬ (some n).any (· != n) = true := by
    have hself : (n == n) = true := Node.beq_self_iff.mpr hplace
    simp [bne, hself]
  simp only [execute, perform, updateNode, hneed, Effect.given, if_neg hfresh]
  rfl

/-- Where the copies are those at board level, a node that is replaced is another one everywhere. -/
theorem InStep.replaced (h : b.InStep) {id : String} {n : Node} (hn : b.node? id = some n) (n' : Node) :
    let after := (b.editNode id fun _ => n').countChange
    after.node? id = some n' ∧ ∀ shelf m, after.copy? shelf id = some m → m = n' := by
  intro after
  have hcopy (shelf : Option String) : after.copy? shelf id = (b.copy? shelf id).map fun _ => n' := by
    show (b.editNode id fun _ => n').copy? shelf id = _
    rw [copy?_editNode, if_pos rfl]
  refine ⟨node?_of_copy?_none ?_, fun shelf m hm => ?_⟩
  · rw [hcopy, ← h.node?, hn]
    rfl
  · rw [hcopy] at hm
    obtain ⟨_, -, rfl⟩ := Option.map_eq_some_iff.mp hm
    rfl

/-- Every pin of a node but an execution pin has a document of its value, if that is not blank. -/
theorem mem_documents_of_value {orders : Orders} {n : Node} (hn : n ∈ b.nodesIn orders) {k : String} {p : Pin}
    (hp : n.pins.get? k = some p) (hdata : p.isExecution = false) {s : String} (hs : Search.shown p.defaultValue = some s)
    (hblank : Text.isAllBlank s = false) : n.valueDocument (b.pathOf n.layer) p s ∈ b.documents orders := by
  have hpin : n.valueDocument (b.pathOf n.layer) p s ∈ n.pinDocuments (b.pathOf n.layer) p := by
    unfold Node.pinDocuments
    rw [hs, Option.filter_some_pos (by simp [hblank])]
    exact List.mem_cons_of_mem _ (List.mem_singleton_self _)
  have hnode : n.valueDocument (b.pathOf n.layer) p s ∈ n.documents (orders.pins n.id) (b.pathOf n.layer) := by
    refine List.mem_append_right _ (List.mem_flatMap.mpr ⟨p, List.mem_filter.mpr ⟨?_, by simp [hdata]⟩, hpin⟩)
    exact List.mem_mergeSort.mpr (KeyMap.mem_valuesIn.mpr ⟨k, hp⟩)
  have hall : n.valueDocument (b.pathOf n.layer) p s ∈
      ((b.nodesIn orders).mergeSort fun m n => m.id ≤ n.id).flatMap
        fun n => n.documents (orders.pins n.id) (b.pathOf n.layer) :=
    List.mem_flatMap.mpr ⟨n, List.mem_mergeSort.mpr hn, hnode⟩
  rw [documents_eq]
  exact List.mem_append_left _ (List.mem_append_left _ (List.mem_append_left _ hall))

end Board

/-- A reference that means a node on a keyed board means it as the board has it. -/
theorem References.node?_of_node {s : References} {b : Board} (hb : b.Keyed) {ref : String} {n : Node}
    (h : s.node b ref = .ok n) (hthere : (b.node? n.id).isSome = true) : b.node? n.id = some n := by
  unfold References.node at h
  dsimp only at h
  split at h
  · rename_i held hheld
    cases hn : b.node? held.node.id with
    | some m =>
      rw [hn] at h
      obtain rfl : m = n := Except.ok.inj h
      rwa [hb.id_of_node? hn]
    | none =>
      rw [hn] at h
      obtain rfl : held.node = n := Except.ok.inj h
      rw [hn] at hthere
      cases hthere
  · split at h
    · rename_i m hm
      obtain rfl : m = n := Except.ok.inj h
      rwa [hb.id_of_node? hm]
    · cases h

namespace Batch

variable {t : Occasion} {s : Progress} {i : Item} {b : Board} {commands : List Command} {k : Nat}

/-! ### Up to a command -/

/-- What a batch has come to when all nodes are made. -/
def making (t : Occasion) (b : Board) (commands : List Command) : Progress × Memory :=
  (createAll t (t.grid.start b) 0 (.begin b) ((items commands).filter (·.command.createsNode == true))).run Memory.facility
    (.ofBoard b)

/-- What a batch has come to at a position: all nodes are made, and of the other commands those before the position are
    carried out. -/
def upTo (t : Occasion) (b : Board) (commands : List Command) (k : Nat) : Progress × Memory :=
  (carryOutAll t false (making t b commands).1 (((items commands).take k).filter (·.command.createsNode == false))).run
    Memory.facility (making t b commands).2

/-- The memory's board at a position. -/
def boardAt (t : Occasion) (b : Board) (commands : List Command) (k : Nat) : Board := (upTo t b commands k).2.board

theorem run_carryOutAll_append {σ : Type} {f : Facility σ} (hf : f.Settled) (outdated : Bool) (l r : List Item) (m : σ) :
    ∃ later, (carryOutAll t outdated s (l ++ r)).run f m =
      (carryOutAll t later ((carryOutAll t outdated s l).run f m).1 r).run f ((carryOutAll t outdated s l).run f m).2 := by
  induction l generalizing outdated s m with
  | nil => exact ⟨outdated, rfl⟩
  | cons i l ih =>
    rw [List.cons_append, run_carryOutAll_cons hf, run_carryOutAll_cons hf]
    exact ih _ _

theorem getElem?_items (commands : List Command) (k : Nat) :
    (items commands)[k]? = commands[k]?.map fun c => ⟨k, c⟩ := by
  unfold items
  rw [List.getElem?_map, List.getElem?_zipIdx, Nat.zero_add]
  cases commands[k]? <;> rfl

theorem filter_items_succ {c : Command} (hc : commands[k]? = some c) (hmakes : c.createsNode = false) :
    ((items commands).take (k + 1)).filter (·.command.createsNode == false) =
      ((items commands).take k).filter (·.command.createsNode == false) ++ [⟨k, c⟩] := by
  have hitem : (items commands)[k]? = some ⟨k, c⟩ := by
    rw [getElem?_items, hc]
    rfl
  rw [List.take_add_one, hitem, List.filter_append, Option.toList_some, List.filter_singleton, hmakes]
  rfl

/-! ### What a part of a batch keeps -/

/-- A command is carried out on the view as it is, or on the board, which is fetched. -/
theorem run_carryOut_view (t : Occasion) (outdated : Bool) (s : Progress) (i : Item) (m : Memory) :
    ∃ view, (view = s.view ∨ view = m.board) ∧
      (carryOut t outdated s i).run Memory.facility m = (perform t { s with view } i).run Memory.facility m := by
  unfold carryOut
  split
  · exact ⟨m.board, Or.inr rfl, by rw [Session.run_bind, run_refresh]⟩
  · exact ⟨s.view, Or.inl rfl, rfl⟩

theorem inStep_create (t : Occasion) (s : Progress) (cell : Spot) (order : List String) (i : Item) {m : Memory}
    (h : m.board.InStep) :
    ((create t s cell order i).run Memory.facility m).2.board.InStep := by
  rcases run_create_executes t s cell order i m with ⟨e, hrun⟩ | ⟨c, n, -, -, hrun⟩
  · rw [hrun]
    exact h
  · rw [hrun]
    exact h.execute (m := .addNode _ c.layer _) trivial

theorem inStep_carryOut (t : Occasion) (outdated : Bool) (s : Progress) (i : Item) {m : Memory} (h : m.board.InStep) :
    ((carryOut t outdated s i).run Memory.facility m).1.refs = s.refs ∧
      ((carryOut t outdated s i).run Memory.facility m).2.board.InStep := by
  obtain ⟨view, -, hrun⟩ := run_carryOut_view t outdated s i m
  rw [hrun]
  rcases run_perform_cases t { s with view } i m with
    ⟨e, -, hrun⟩ | ⟨mutation, hm, ⟨e, -, hrun⟩ | ⟨r, -, hrun⟩⟩
  · rw [hrun]
    exact ⟨rfl, h⟩
  · rw [hrun]
    exact ⟨rfl, h.execute (Action.proper_mutation hm).1⟩
  · rw [hrun]
    exact ⟨rfl, h.execute (Action.proper_mutation hm).1⟩

/-- At every position references are those of the whole batch, and a board that was in step is still so. -/
theorem inStep_upTo (t : Occasion) (commands : List Command) (k : Nat) (hb : b.InStep) :
    (upTo t b commands k).1.refs = references t b commands ∧ (boardAt t b commands k).InStep := by
  have hmade : (making t b commands).2.board.InStep :=
    keeps_createAll (I := fun x : Progress × Memory => x.2.board.InStep) _ _ 0
      (fun k _ i _ s m h => inStep_create t s _ _ i h) hb
  refine keeps_carryOutAll Memory.settled (I := fun x : Progress × Memory => x.1.refs = references t b commands ∧
    x.2.board.InStep) _ (fun outdated i _ s m ⟨hrefs, hm⟩ => ?_) false ⟨rfl, hmade⟩
  obtain ⟨hsame, hstep⟩ := inStep_carryOut t outdated s i hm
  exact ⟨hsame.trans hrefs, hstep⟩

/-! ### At a command -/

/-- A command that makes no node is carried out at its position. -/
theorem upTo_succ (t : Occasion) (b : Board) {c : Command} (hc : commands[k]? = some c) (hmakes : c.createsNode = false) :
    ∃ outdated, upTo t b commands (k + 1) =
      (carryOut t outdated (upTo t b commands k).1 ⟨k, c⟩).run Memory.facility (upTo t b commands k).2 := by
  obtain ⟨outdated, h⟩ := run_carryOutAll_append (t := t) (s := (making t b commands).1) Memory.settled false
    (((items commands).take k).filter (·.command.createsNode == false)) [⟨k, c⟩] (making t b commands).2
  refine ⟨outdated, ?_⟩
  rw [← filter_items_succ hc hmakes, run_carryOutAll_cons Memory.settled] at h
  exact h

theorem take_items (commands : List Command) : (items commands).take commands.length = items commands := by
  rw [List.take_of_length_le]
  unfold items
  rw [List.length_map, List.length_zipIdx]

/-- At the end all commands are carried out. -/
theorem run_apply_eq_upTo (t : Occasion) (b : Board) (commands : List Command) :
    let last := upTo t b commands commands.length
    (apply t b commands).run Memory.facility (.ofBoard b) =
      ((⟨last.1.outcomes, last.1.created, true⟩, last.1.notices), last.2) := by
  unfold apply upTo making
  simp only [partition_items, Session.run_bind, take_items]
  rfl

/-- What a batch reports up to a position it reports at the end. -/
theorem outcome?_of_upTo {o : Outcome} (ho : o ∈ (upTo t b commands k).1.outcomes) :
    ((apply t b commands).run Memory.facility (.ofBoard b)).1.1.outcome? o.index = some o := by
  have hsplit : ((items commands).take commands.length).filter (·.command.createsNode == false) =
      ((items commands).take k).filter (·.command.createsNode == false) ++
        ((items commands).drop k).filter (·.command.createsNode == false) := by
    rw [take_items, ← List.filter_append, List.take_append_drop]
  obtain ⟨outdated, h⟩ := run_carryOutAll_append (t := t) (s := (making t b commands).1) Memory.settled false
    (((items commands).take k).filter (·.command.createsNode == false))
    (((items commands).drop k).filter (·.command.createsNode == false)) (making t b commands).2
  obtain ⟨rest, hrest⟩ := (deals_carryOutAll t (((items commands).drop k).filter (·.command.createsNode == false))
    outdated (upTo t b commands k).1).run Memory.facility (upTo t b commands k).2
  have hlast : (upTo t b commands commands.length).1.outcomes = (upTo t b commands k).1.outcomes ++ rest := by
    rw [← hrest.added, upTo, hsplit, h]
    rfl
  have hall : o ∈ ((apply t b commands).run Memory.facility (.ofBoard b)).1.1.outcomes := by
    rw [run_apply_eq_upTo]
    show o ∈ (upTo t b commands commands.length).1.outcomes
    rw [hlast]
    exact List.mem_append_left _ ho
  have haccounts : Accounts commands ((apply t b commands).run Memory.facility (.ofBoard b)).1.1 _ := accounts_of_run rfl
  exact haccounts.outcome?_of_mem hall

/-! ### Setting a value -/

/-- The value goes to the node as it is on the board. -/
theorem run_carryOut_sets {ref pin : String} {value : Json} (haction : i.command.action = .updateNodePin ref pin value)
    {m : Memory} {n : Node} {found : PinMatch} (hnode : s.refs.node m.board ref = .ok n)
    (hthere : m.board.node? n.id = some n) (hpin : s.refs.pin ref n pin = .ok found)
    (hplace : n.place.Within (·.isNaN = false)) (outdated : Bool) :
    ∃ journal, (carryOut t outdated s i).run Memory.facility m =
      (({ s with view := m.board } : Progress).applied i n.id,
        ⟨(m.board.editNode n.id fun _ => n.withDefault found.pin (storedValue value)).countChange, journal⟩) := by
  have hneeds : needsFresh outdated i.command.action = true := by
    rw [haction]
    rfl
  have hmutation : i.command.action.mutation s.refs m.board t.now =
      .ok (.updateNode (some n) (n.withDefault found.pin (storedValue value))) := by
    rw [haction]
    simp only [Action.mutation, hnode, Bind.bind, Except.bind, hpin]
    rfl
  have hexecute := Board.execute_withDefault hthere hplace found.pin (storedValue value)
  rw [run_carryOut_fresh hneeds]
  rcases run_perform_cases t { s with view := m.board } i m with
    ⟨e, he, -⟩ | ⟨mutation, hm, ⟨e, he, -⟩ | ⟨r, hr, hrun⟩⟩
  · cases he.symm.trans hmutation
  · cases hm.symm.trans hmutation
    rw [hexecute] at he
    cases he
  · cases hm.symm.trans hmutation
    rw [hexecute] at hr hrun
    cases hr
    exact ⟨_, hrun⟩

/-- A command that sets the value of a pin is applied if its references mean a node on the board that it finds and a pin of
    that node, unless a coordinate of the node is undefined. Then every copy of the node has the value at that pin. It is
    read as the value that was given, members by key and a string without one pair of quotes around it, if all its numbers
    are whole and have 64 bits; a value that is nested too deeply is not read at all. A string without a pair of quotes
    around it is shown as it is, and the document of the pin's value has it. -/
theorem apply_sets_value (t : Occasion) (hb : b.InStep) {c : Command} (hc : commands[k]? = some c) {ref pin : String}
    {value : Json} (haction : c.action = .updateNodePin ref pin value) {n : Node} {found : PinMatch}
    (hnode : (references t b commands).node (boardAt t b commands k) ref = .ok n)
    (hthere : ((boardAt t b commands k).node? n.id).isSome = true)
    (hpin : (references t b commands).pin ref n pin = .ok found) (hplace : n.place.Within (·.isNaN = false)) :
    let set := n.withDefault found.pin (storedValue value)
    let after := boardAt t b commands (k + 1)
    ((apply t b commands).run Memory.facility (.ofBoard b)).1.1.outcome? k = some ⟨k, "UpdateNodePin", .applied n.id⟩ ∧
    after.node? n.id = some set ∧ (∀ shelf m, after.copy? shelf n.id = some m → m = set) ∧
    ∃ p, set.pins.get? found.pin = some p ∧
      ((∀ x ∈ value.numbers, ∃ i : Int, x = .whole i ∧ -0x8000000000000000 ≤ i ∧ i ≤ 0xFFFFFFFFFFFFFFFF) →
        p.defaultValue.bind Literal.decode? =
          if value.depth < Draft.nestingLimit then some (Literal.normalize value).sorted else none) ∧
      ∀ s, value = .string s → (∀ inner, s ≠ "\"" ++ inner ++ "\"") →
        Search.shown p.defaultValue = some s ∧
        (p.isExecution = false → Text.isAllBlank s = false → ∀ orders,
          ∃ d ∈ after.documents orders,
            d.kind = .pinValue ∧ d.node = some n.id ∧ d.pinName = some p.name ∧ d.matchedValue = some s) := by
  intro set after
  obtain ⟨hrefs, hstep⟩ := inStep_upTo t commands k hb
  obtain ⟨-, hafter⟩ := inStep_upTo t commands (k + 1) hb
  have hthere : (boardAt t b commands k).node? n.id = some n := References.node?_of_node hstep.toKeyed hnode hthere
  have hmakes : c.createsNode = false := by
    unfold Command.createsNode
    rw [haction]
    rfl
  obtain ⟨outdated, hnext⟩ := upTo_succ t b hc hmakes
  obtain ⟨journal, hrun⟩ := run_carryOut_sets (t := t) (i := ⟨k, c⟩) (s := (upTo t b commands k).1)
    (m := (upTo t b commands k).2) haction (hrefs ▸ hnode) hthere (hrefs ▸ hpin) hplace outdated
  rw [hrun] at hnext
  -- The board is in step, so what replaces the node replaces every copy of it.
  obtain ⟨hset, hcopies⟩ : after.node? n.id = some set ∧ ∀ shelf m, after.copy? shelf n.id = some m → m = set := by
    have hboard : after = ((boardAt t b commands k).editNode n.id fun _ => set).countChange := congrArg (·.2.board) hnext
    rw [hboard]
    exact hstep.replaced hthere set
  obtain ⟨q, hq⟩ := Option.isSome_iff_exists.mp (References.contains_of_pin hpin)
  have hp := Node.get?_withDefault hq (storedValue value)
  refine ⟨?_, hset, hcopies, _, hp, fun hnumbers => ?_, fun s hs hbare => ?_⟩
  · have hkind : c.kind = "UpdateNodePin" := by
      unfold Command.kind
      rw [haction]
      rfl
    have hmem : ⟨k, "UpdateNodePin", .applied n.id⟩ ∈ (upTo t b commands (k + 1)).1.outcomes := by
      rw [hnext, ← hkind]
      exact List.mem_append_right _ (List.mem_singleton_self _)
    exact outcome?_of_upTo hmem
  · refine Literal.decode?_storedValue fun x hx => ?_
    obtain ⟨i, rfl, hlow, hhigh⟩ := hnumbers x hx
    exact JsonNumber.readsBack_whole hlow hhigh
  · subst hs
    have hshown := Search.shown_storedValue hbare
    refine ⟨hshown, fun hdata hblank orders => ?_⟩
    -- All copies of the node are the same, so it has its documents in every order.
    have hmet : set ∈ after.nodesIn orders := by
      have hkeyed := Board.keyed_iff.mp hafter.toKeyed
      refine Board.mem_nodesIn (Board.mem_nodeCopies.mpr ⟨none, n.id, hafter.node? n.id ▸ hset⟩) fun m hm hid => ?_
      obtain ⟨shelf, id, hm⟩ := Board.mem_nodeCopies.mp hm
      obtain rfl : m.id = id := hkeyed shelf id m hm
      exact hcopies shelf m (hid ▸ hm)
    exact ⟨_, Board.mem_documents_of_value hmet hp hdata hshown hblank, rfl, rfl, rfl, rfl⟩

theorem exists_ok_of_any {ε α : Type} {x : Except ε α} {P : α → Bool} (h : x.toOption.any P = true) :
    ∃ a, x = .ok a ∧ P a = true := by
  cases x with
  | error e => cases h
  | ok a => exact ⟨a, rfl, h⟩

/-- A node is made and goes to a layer, and its pin is set by a name in other case. -/
def setLevel : List Command := [
  ⟨.addNode ⟨"log", some "a", none, none, none⟩, none⟩,
  ⟨.createLayer ⟨"Layer", ["a"], none, none, none⟩, none⟩,
  ⟨.updateNodePin "$0" " LEVEL" (.string "\"\\\t\"é😀"), none⟩]

theorem apply_sets_value_setLevel :
    let level : Pin := ⟨"level", "level", "Level", "", .input, .string, .single, none, ∅, ∅⟩
    let log : Node := ⟨"", "log", "Log", "", "", none, .ofList [("level", level)], .origin, none⟩
    let t : Setting := ⟨[log], .standard, .zero, 0⟩
    let b := Board.blank "b" "board"
    let refs := references t b setLevel
    let found := boardAt t b setLevel 2
    b.InStep ∧ ∃ n pin, refs.node found "$0" = .ok n ∧ (found.node? n.id).isSome = true ∧
      refs.pin "$0" n " LEVEL" = .ok pin ∧ n.place.Within (·.isNaN = false) ∧
      ((apply t b setLevel).run Memory.facility (.ofBoard b)).1.1.outcome? 2 =
        some ⟨2, "UpdateNodePin", .applied n.id⟩ ∧
      ∃ m p, (boardAt t b setLevel 3).node? n.id = some m ∧ m.pins.get? pin.pin = some p ∧
        p.defaultValue.bind Literal.decode? = some (.string "\"\\\t\"é😀") ∧
        Search.shown p.defaultValue = some "\"\\\t\"é😀" := by
  intro level log t b refs found
  have hb : b.InStep := Board.inStep_blank "b" "board"
  have hcheck : ((refs.node found "$0").toOption.any fun n => (found.node? n.id).isSome &&
      (refs.pin "$0" n " LEVEL").toOption.any (fun _ => true) && !n.place.x.isNaN && !n.place.y.isNaN && !n.place.z.isNaN) =
      true := by decide +kernel
  have hbare : ∀ inner, "\"\\\t\"é😀" ≠ "\"" ++ inner ++ "\"" := fun inner h => by
    have hlast := congrArg (·.toList.getLast?) h
    rw [String.toList_append, List.getLast?_append] at hlast
    cases hlast
  obtain ⟨n, hnode, hcheck⟩ := exists_ok_of_any hcheck
  simp only [Bool.and_eq_true, Bool.not_eq_true'] at hcheck
  obtain ⟨⟨⟨⟨hthere, hpin⟩, hx⟩, hy⟩, hz⟩ := hcheck
  obtain ⟨pin, hpin, -⟩ := exists_ok_of_any hpin
  have hc : setLevel[2]? = some ⟨.updateNodePin "$0" " LEVEL" (.string "\"\\\t\"é😀"), none⟩ := rfl
  obtain ⟨hout, hset, -, p, hp, hread, hshow⟩ := apply_sets_value t hb hc rfl hnode hthere hpin ⟨hx, hy, hz⟩
  exact ⟨hb, n, pin, hnode, hthere, hpin, ⟨hx, hy, hz⟩, hout, _, p, hset, hp, hread (fun x hx => by cases hx),
    (hshow _ rfl hbare).1⟩

end Batch

end Workboard
