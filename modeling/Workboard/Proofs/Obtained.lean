import Workboard.Proofs.Account
import Workboard.Proofs.Numbers
import Workboard.Proofs.Run
import Workboard.Proofs.Texts

/-! Where the numbers on a board come from.

An action takes the numbers of its mutation from its own positions and sizes, or from the view, where the
middle of some nodes is the one thing that is computed. So the numbers on a board after a batch are `Obtained`
from the numbers that it started with and those of the commands (`Batch.obtained_apply`). -/

namespace Workboard

/-! ### Actions -/

namespace Action

/-- The positions that an action gives. -/
def spots : Action → List Spot
  | addNode r => r.spot.toList
  | addPlaceholder r => r.spot.toList
  | moveNode _ spot _ => [spot]
  | createComment r => [r.spot]
  | updateComment _ edit => edit.spot.toList
  | createLayer r => r.spot.toList
  | _ => []

/-- The sizes that an action gives. -/
def sizes : Action → List Float
  | createComment r => r.width.toList ++ r.height.toList
  | _ => []

end Action

/-- The middle of some coordinates, as it is computed. -/
def mean (xs : List Float32) : Float32 := xs.foldl (· + ·) 0 / xs.length.toFloat32

/-- The numbers that a batch may put on a board: those that are there, zero, the positions and sizes of its
    commands and the cells of the grid, each narrowed, and means. -/
inductive Obtained (t : Occasion) (start : Board) (commands : List Command) : Float32 → Prop
  | kept {x : Float32} : x ∈ start.numbers → Obtained t start commands x
  | zero : Obtained t start commands 0
  | position {c : Command} {s : Spot} : c ∈ commands → s ∈ c.action.spots →
      ∀ x ∈ [s.x, s.y], Obtained t start commands (narrow x)
  | size {c : Command} {x : Float} : c ∈ commands → x ∈ c.action.sizes → Obtained t start commands (narrow x)
  | cell {i : Nat} : i < commands.length →
      ∀ x ∈ [(t.grid.cell (t.grid.start start) i).x, (t.grid.cell (t.grid.start start) i).y],
        Obtained t start commands (narrow x)
  | mean {xs : List Float32} : (∀ x ∈ xs, Obtained t start commands x) → Obtained t start commands (mean xs)

variable {P : Float32 → Prop}

/-- What an action gives satisfies `P` once it is narrowed. -/
structure Action.Within (P : Float32 → Prop) (a : Action) : Prop where
  spots : ∀ s ∈ a.spots, ∀ x ∈ [s.x, s.y], P (narrow x)
  sizes : ∀ x ∈ a.sizes, P (narrow x)

/-- Nodes that are referred to are at places with numbers that satisfy `P`. -/
def References.Within (P : Float32 → Prop) (s : References) : Prop :=
  ∀ name held, s.aliases.get? name = some held → held.node.place.Within P

theorem Spot.within_place {s : Spot} {z : Float32} (hs : ∀ x ∈ [s.x, s.y], P (narrow x)) (hz : P z) :
    (s.place z).Within P := ⟨hs s.x (by simp), hs s.y (by simp), hz⟩

/-! ### References -/

namespace References

variable {s : References} {view : Board}

theorem Within.node (h : s.Within P) (hview : view.Within P) {ref : String} {n : Node} (hn : s.node view ref = .ok n) :
    n.place.Within P := by
  unfold References.node at hn
  dsimp only at hn
  split at hn
  · rename_i held hheld
    obtain rfl := Except.ok.inj hn
    cases hm : view.node? held.node.id with
    | none => exact h _ held hheld
    | some m => exact hview.node hm
  · split at hn
    · rename_i m hm
      obtain rfl := Except.ok.inj hn
      exact hview.node hm
    · cases hn

theorem Within.grantAll (h : s.Within P) {n : Node} (hn : n.place.Within P) (table : PinTable)
    (requests : List (String × AliasRank)) (granted : List String) :
    (References.grantAll n table s granted requests).1.Within P := by
  induction requests generalizing s granted with
  | nil => exact h
  | cons request r ih =>
    obtain ⟨asked, rank⟩ := request
    unfold References.grantAll
    split
    · refine ih (fun name held hheld => ?_) _
      rw [References.bind, KeyMap.get?_insert] at hheld
      split at hheld
      · obtain rfl := Option.some.inj hheld
        exact hn
      · exact h name held hheld
    · exact ih h _

theorem Within.register (h : s.Within P) {n : Node} (hn : n.place.Within P) (ref : Option String) (position : Nat) :
    (s.register n ref position).1.Within P := h.grantAll hn _ _ _

end References

/-! ### Actions -/

theorem Board.Within.centroid {view : Board} (h : view.Within P) (hzero : P 0)
    (hmean : ∀ xs, (∀ x ∈ xs, P x) → P (mean xs)) (ids : List String) : (view.centroid ids).Within P := by
  have hmembers : ∀ n ∈ ids.filterMap view.node?, n.place.Within P := by
    intro n hn
    obtain ⟨id, -, hid⟩ := List.mem_filterMap.mp hn
    exact h.node hid
  have hcoordinate (members : List Node) (f : Node → Float32) (hf : ∀ n ∈ members, P (f n)) :
      P (members.foldl (fun s n => s + f n) 0 / members.length.toFloat32) := by
    have h := hmean (members.map f) (by simpa using hf)
    rw [mean, List.foldl_map, List.length_map] at h
    exact h
  unfold Board.centroid
  split
  · exact ⟨hzero, hzero, hzero⟩
  · exact ⟨hcoordinate _ (·.place.x) fun n hn => (hmembers n hn).1,
      hcoordinate _ (·.place.y) fun n hn => (hmembers n hn).2.1, hzero⟩

theorem Action.Within.mutation {a : Action} (ha : a.Within P) {s : References} (hs : s.Within P) {view : Board}
    (hview : view.Within P) (hzero : P 0) (hmean : ∀ xs, (∀ x ∈ xs, P x) → P (mean xs)) {now : UInt64} {m : Mutation}
    (h : a.mutation s view now = .ok m) : m.Within P := by
  cases asks_of_mutation h with
  | updateNodePin hn =>
    have hplace := hs.node hview hn
    exact hplace
  | @moveNode _ spot _ _ hn =>
    exact Spot.within_place (ha.spots spot (List.mem_singleton_self spot)) (hs.node hview hn).2.2
  | @createComment r =>
    refine ⟨Spot.within_place (ha.spots r.spot (List.mem_singleton_self r.spot)) hzero, fun x hx => ?_⟩
    have hx : x ∈ (r.width.map narrow).toList ++ (r.height.map narrow).toList := hx
    simp only [Option.toList_map, ← List.map_append] at hx
    obtain ⟨y, hy, rfl⟩ := List.mem_map.mp hx
    exact ha.sizes y hy
  | @updateComment id edit c hc =>
    have hold := hview.comments id c (Board.viewComment_eq_ok.mp hc)
    refine ⟨?_, hold.sizes⟩
    rw [CommentEdit.apply]
    dsimp only
    split
    · rename_i spot hspot
      exact Spot.within_place (ha.spots spot (by simp [Action.spots, hspot])) hold.place.2.2
    · exact hold.place
  | @createLayer r members place _ _ hplace =>
    refine ⟨?_, rfl⟩
    rw [hplace]
    split
    · rename_i spot hspot
      exact Spot.within_place (ha.spots spot (by simp [Action.spots, hspot])) hzero
    · exact hview.centroid hzero hmean members
  | _ => trivial

theorem Action.Within.creation {a : Action} (ha : a.Within P) (hzero : P 0) {catalog : Catalog} {view : Board}
    {c : Creation} (h : a.creation catalog view = .ok c) {cell : Spot} (hcell : ∀ x ∈ [cell.x, cell.y], P (narrow x)) :
    ((c.spot.getD cell).place 0).Within P := by
  have hspot : ∀ s, c.spot = some s → s ∈ a.spots := by
    unfold Action.creation at h
    cases a with
    | addNode r | addPlaceholder r =>
      obtain ⟨template, -, h⟩ := bind_eq_ok h
      obtain ⟨made, hpure, h⟩ := bind_eq_ok h
      obtain ⟨u, -, h⟩ := bind_eq_ok h
      cases hpure
      cases h
      intro s hs
      exact Option.mem_toList.mpr hs
    | _ => cases h
  cases hs : c.spot with
  | none => exact Spot.within_place hcell hzero
  | some spot => exact Spot.within_place (ha.spots spot (hspot spot hs)) hzero

/-! ### Batches -/

/-- A batch is in progress on a board, and all numbers that it may use satisfy `P`. -/
structure Progress.Within (P : Float32 → Prop) (s : Progress) (b : Board) : Prop where
  refs : s.refs.Within P
  view : s.view.Within P
  board : b.Within P

theorem Board.Within.insertNode {b : Board} (h : b.Within P) {n : Node} (hn : n.place.Within P) :
    ({ b with nodes := b.nodes.insert n.id n } : Board).Within P where
  nodes shelf id m hm := by
    cases shelf with
    | none =>
      have hm : (b.nodes.insert n.id n).get? id = some m := hm
      rw [KeyMap.get?_insert] at hm
      split at hm
      · obtain rfl := Option.some.inj hm
        exact hn
      · exact h.nodes none id m hm
    | some layer => exact h.nodes (some layer) id m hm
  layers := h.layers
  comments := h.comments

namespace Batch

variable {t : Occasion} {s : Progress} {m : Memory} {i : Item}

theorem within_create (h : s.Within P m.board) (hzero : P 0) (ha : i.command.action.Within P) {cell : Spot}
    {order : List String} (hcell : ∀ x ∈ [cell.x, cell.y], P (narrow x)) :
    ((create t s cell order i).run Memory.facility m).1.Within P ((create t s cell order i).run Memory.facility m).2.board := by
  rcases run_create_cases t s cell order i m with ⟨e, hrun⟩ | ⟨c, n, hc, rfl, hrun⟩
  · rw [hrun]
    exact ⟨h.refs, h.view, h.board⟩
  · rw [hrun]
    have hplace := ha.creation hzero hc hcell
    exact ⟨h.refs.register hplace c.ref i.index, h.view.insertNode hplace, (h.board.storeNode hplace).countChange⟩

theorem within_createAll {items : List Item} (hzero : P 0) (hitems : ∀ i ∈ items, i.command.action.Within P)
    (start : Spot) (n : Nat)
    (hcells : ∀ k < n + items.length, ∀ x ∈ [(t.grid.cell start k).x, (t.grid.cell start k).y], P (narrow x))
    (h : s.Within P m.board) :
    ((createAll t start n s items).run Memory.facility m).1.Within P
      ((createAll t start n s items).run Memory.facility m).2.board :=
  keeps_createAll (I := fun x : Progress × Memory => x.1.Within P x.2.board) start items n
    (fun k hk i hi _ _ h => within_create h hzero (hitems i hi) (hcells k hk)) h

variable (hzero : P 0) (hmean : ∀ xs, (∀ x ∈ xs, P x) → P (mean xs))
include hzero hmean

theorem within_perform (h : s.Within P m.board) (ha : i.command.action.Within P) :
    ((perform t s i).run Memory.facility m).1.Within P ((perform t s i).run Memory.facility m).2.board := by
  rcases run_perform_cases t s i m with ⟨e, -, hrun⟩ | ⟨mutation, hm, hend⟩
  · rw [hrun]
    exact ⟨h.refs, h.view, h.board⟩
  · have hboard := h.board.execute (ha.mutation h.refs h.view hzero hmean hm)
    rcases hend with ⟨e, -, hrun⟩ | ⟨r, -, hrun⟩
    · rw [hrun]
      exact ⟨h.refs, h.view, hboard⟩
    · rw [hrun]
      exact ⟨h.refs, h.view, hboard⟩

theorem within_carryOut (h : s.Within P m.board) (ha : i.command.action.Within P) (outdated : Bool) :
    ((carryOut t outdated s i).run Memory.facility m).1.Within P
      ((carryOut t outdated s i).run Memory.facility m).2.board := by
  unfold carryOut
  split
  · rw [Session.run_bind, run_refresh]
    exact within_perform hzero hmean (s := { s with view := m.board }) ⟨h.refs, h.board, h.board⟩ ha
  · exact within_perform hzero hmean h ha

theorem within_carryOutAll {items : List Item} (hitems : ∀ i ∈ items, i.command.action.Within P) (outdated : Bool)
    (h : s.Within P m.board) :
    ((carryOutAll t outdated s items).run Memory.facility m).1.Within P
      ((carryOutAll t outdated s items).run Memory.facility m).2.board :=
  keeps_carryOutAll Memory.settled (I := fun x : Progress × Memory => x.1.Within P x.2.board) items
    (fun outdated i hi _ _ h => within_carryOut hzero hmean h (hitems i hi) outdated) outdated h

omit hzero hmean

/-- Every number on the board after a batch comes from the board before, from the commands or the grid, or is
    a mean of such numbers. -/
theorem obtained_apply (t : Occasion) (b : Board) (commands : List Command) :
    ∀ x ∈ ((apply t b commands).run Memory.facility (.ofBoard b)).2.board.numbers, Obtained t b commands x := by
  have hstart : b.Within (Obtained t b commands) := Board.within_iff.mpr fun x hx => .kept hx
  have hitems : ∀ i ∈ items commands, i.command.action.Within (Obtained t b commands) := by
    intro i hi
    have hc : i.command ∈ commands := List.mem_of_getElem? (mem_items.mp hi)
    exact ⟨fun s hs x hx => .position hc hs x hx, fun x hx => .size hc hx⟩
  have hlength : (items commands).length = commands.length := by simp [items]
  unfold apply
  rw [List.partition_eq_filter_filter]
  simp only [Session.run_bind]
  have hcells : ∀ k < 0 + ((items commands).filter (·.command.createsNode)).length,
      ∀ x ∈ [(t.grid.cell (t.grid.start b) k).x, (t.grid.cell (t.grid.start b) k).y], Obtained t b commands (narrow x) := by
    intro k hk
    have hle := List.length_filter_le (·.command.createsNode) (items commands)
    exact .cell (by omega)
  have hbegin : (Progress.begin b).Within (Obtained t b commands) (Memory.ofBoard b).board :=
    ⟨fun name held hheld => (by cases hheld), hstart, hstart⟩
  have hcreated := within_createAll .zero (fun i hi => hitems i (List.mem_of_mem_filter hi)) (t.grid.start b) 0 hcells hbegin
  exact Board.within_iff.mp (within_carryOutAll .zero (fun xs hxs => .mean hxs)
    (fun i hi => hitems i (List.mem_of_mem_filter hi)) false hcreated).board

end Batch

end Workboard
