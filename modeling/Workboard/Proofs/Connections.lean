import Workboard.Proofs.PinStep

/-! Consistent connections.

A connection is stored at both of its ends, and with every copy of the two nodes. On a consistent board the two
ends agree (`Board.Consistent`), so all connections can be told by one relation between pins (`Board.Wired`). Each
step that a proper mutation can be keeps a board wired, and adds a connection only if the mutation asks for it. -/

namespace Workboard.Board

variable {b b' : Board} {edge : String → String → Prop} {x y k l : String} {p q : Pin} {m : Mutation}

/-- A board on which copies are in step, no two nodes have a pin in common, and each connection is one of an
    output and an input of different nodes and stored at both of them. -/
structure Consistent (b : Board) : Prop extends InStep b where
  ids : ∀ x k p, b.nodePin? x k = some p → p.id = k
  unique : ∀ x y k p q, b.nodePin? x k = some p → b.nodePin? y k = some q → x = y
  twoWay : ∀ x y k l p q, b.nodePin? x k = some p → b.nodePin? y l = some q →
    (p.connectedTo.contains l = true ↔ q.dependsOn.contains k = true)
  known : ∀ x k l p, b.nodePin? x k = some p → (p.connectedTo.contains l = true ∨ p.dependsOn.contains l = true) →
    ∃ y q, b.nodePin? y l = some q
  ends : ∀ x y k l p q, b.nodePin? x k = some p → b.nodePin? y l = some q → p.connectedTo.contains l = true →
    b.Joins ⟨x, k, y, l⟩ p q

/-- A board whose connections are those of a relation. -/
structure Wired (b : Board) (edge : String → String → Prop) : Prop where
  ids : ∀ x k p, b.nodePin? x k = some p → p.id = k
  unique : ∀ x y k p q, b.nodePin? x k = some p → b.nodePin? y k = some q → x = y
  outs : ∀ x k l p, b.nodePin? x k = some p → (p.connectedTo.contains l = true ↔ edge k l)
  ins : ∀ y l k q, b.nodePin? y l = some q → (q.dependsOn.contains k = true ↔ edge k l)
  ends : ∀ k l, edge k l → ∃ x y p q, b.Joins ⟨x, k, y, l⟩ p q

/-- The pin of an output's id lists the other. -/
def Edge (b : Board) (k l : String) : Prop := ∃ x p, b.nodePin? x k = some p ∧ p.connectedTo.contains l = true

theorem Wired.edge_iff (h : b.Wired edge) : b.Edge k l ↔ edge k l := by
  constructor
  · rintro ⟨x, p, hp, hl⟩
    exact (h.outs x k l p hp).mp hl
  · intro he
    obtain ⟨x, y, p, q, hjoin⟩ := h.ends k l he
    exact ⟨x, p, hjoin.source, (h.outs x k l p hjoin.source).mpr he⟩

theorem Consistent.wired (h : b.Consistent) : b.Wired b.Edge where
  ids := h.ids
  unique := h.unique
  outs x k l p hp := by
    refine ⟨fun hl => ⟨x, p, hp, hl⟩, fun ⟨x', p', hp', hl⟩ => ?_⟩
    obtain rfl := h.unique x x' k p p' hp hp'
    rw [hp] at hp'
    cases hp'
    exact hl
  ins y l k q hq := by
    constructor
    · intro hk
      obtain ⟨x, p, hp⟩ := h.known y l k q hq (Or.inr hk)
      exact ⟨x, p, hp, (h.twoWay x y k l p q hp hq).mpr hk⟩
    · rintro ⟨x, p, hp, hl⟩
      exact (h.twoWay x y k l p q hp hq).mp hl
  ends k l := by
    rintro ⟨x, p, hp, hl⟩
    obtain ⟨y, q, hq⟩ := h.known x k l p hp (Or.inl hl)
    exact ⟨x, y, p, q, h.ends x y k l p q hp hq hl⟩

theorem Wired.consistent (h : b.Wired edge) (hstep : b.InStep) : b.Consistent where
  toInStep := hstep
  ids := h.ids
  unique := h.unique
  twoWay x y k l p q hp hq := (h.outs x k l p hp).trans (h.ins y l k q hq).symm
  known x k l p hp := by
    rintro (hl | hl)
    · obtain ⟨x', y, p', q, hjoin⟩ := h.ends k l ((h.outs x k l p hp).mp hl)
      exact ⟨y, q, hjoin.target⟩
    · obtain ⟨y, x', q, p', hjoin⟩ := h.ends l k ((h.ins x k l p hp).mp hl)
      exact ⟨y, q, hjoin.source⟩
  ends x y k l p q hp hq hl := by
    obtain ⟨x', y', p', q', hjoin⟩ := h.ends k l ((h.outs x k l p hp).mp hl)
    obtain rfl := h.unique x x' k p p' hp hjoin.source
    obtain rfl := h.unique y y' l q q' hq hjoin.target
    obtain rfl : p = p' := Option.some.inj (hp.symm.trans hjoin.source)
    obtain rfl : q = q' := Option.some.inj (hq.symm.trans hjoin.target)
    exact hjoin

/-! ### Steps -/

/-- Every pin is one that was there before, with the ends that a relation has for it now. -/
theorem Wired.of_old {edge' : String → String → Prop} (h : b.Wired edge)
    (old : ∀ x k p', b'.nodePin? x k = some p' → ∃ p, b.nodePin? x k = some p ∧ p'.id = p.id ∧
      (∀ l, p'.connectedTo.contains l = true ↔ edge' k l) ∧ ∀ j, p'.dependsOn.contains j = true ↔ edge' j k)
    (ends : ∀ k l, edge' k l → ∃ x y p q, b'.Joins ⟨x, k, y, l⟩ p q) : b'.Wired edge' where
  ids x k p' hp' := by
    obtain ⟨p, hp, hid, -, -⟩ := old x k p' hp'
    exact hid.trans (h.ids x k p hp)
  unique x y k p' q' hp' hq' := by
    obtain ⟨p, hp, -, -, -⟩ := old x k p' hp'
    obtain ⟨q, hq, -, -, -⟩ := old y k q' hq'
    exact h.unique x y k p q hp hq
  outs x k l p' hp' := by
    obtain ⟨p, -, -, houts, -⟩ := old x k p' hp'
    exact houts l
  ins y l k q' hq' := by
    obtain ⟨q, -, -, -, hins⟩ := old y l q' hq'
    exact hins k
  ends := ends

/-- All pins keep their ends. -/
theorem Wired.kept (h : b.Wired edge) {f : String → String → Pin → Pin} (same : ∀ x k p, (f x k p).SameEnds p)
    (pins : ∀ x k, b'.nodePin? x k = (b.nodePin? x k).map (f x k)) : b'.Wired edge := by
  have hnew : ∀ {x k p}, b.nodePin? x k = some p → b'.nodePin? x k = some (f x k p) := by
    intro x k p hp
    rw [pins, hp]
    rfl
  refine h.of_old (fun x k p' hp' => ?_) fun k l he => ?_
  · rw [pins] at hp'
    obtain ⟨p, hp, rfl⟩ := Option.map_eq_some_iff.mp hp'
    have hsame := same x k p
    refine ⟨p, hp, hsame.id, fun l => ?_, fun j => ?_⟩
    · rw [hsame.outs]
      exact h.outs x k l p hp
    · rw [hsame.ins]
      exact h.ins x k j p hp
  · obtain ⟨x, y, p, q, hjoin⟩ := h.ends k l he
    have hp := same x k p
    have hq := same y l q
    exact ⟨x, y, f x k p, f y l q, hnew hjoin.source, hnew hjoin.target, hp.direction.trans hjoin.output,
      hq.direction.trans hjoin.input, hjoin.apart, hp.execution.trans (hjoin.kinds.trans hq.execution.symm)⟩

/-- A node comes with pins that no connection mentions. -/
theorem Wired.added (h : b.Wired edge) {id : String} {new : KeyMap Pin} (fresh : ∀ k, b.nodePin? id k = none)
    (bare : ∀ k p, new.get? k = some p → p.id = k ∧ p.connectedTo = ∅ ∧ p.dependsOn = ∅ ∧ ∀ x, b.nodePin? x k = none)
    (pins : ∀ x k, b'.nodePin? x k = if id = x then new.get? k else b.nodePin? x k) : b'.Wired edge := by
  have hcases : ∀ {x k p'}, b'.nodePin? x k = some p' → (id = x ∧ new.get? k = some p') ∨ b.nodePin? x k = some p' := by
    intro x k p' hp'
    rw [pins] at hp'
    split at hp'
    · rename_i hx
      exact Or.inl ⟨hx, hp'⟩
    · exact Or.inr hp'
  have hold : ∀ {x k p}, b.nodePin? x k = some p → b'.nodePin? x k = some p := by
    intro x k p hp
    rw [pins, if_neg, hp]
    rintro rfl
    rw [fresh] at hp
    cases hp
  -- A new pin has an id that no pin of the board has, so no connection bears on both.
  have hother : ∀ {x k p q}, new.get? k = some p → b.nodePin? x k ≠ some q := by
    intro x k p q hp hq
    rw [(bare k p hp).2.2.2 x] at hq
    cases hq
  have hempty : ∀ {s : KeySet} {j : String}, s = ∅ → s.contains j ≠ true := by
    rintro s j rfl hj
    cases hj
  constructor
  case ids =>
    intro x k p hp
    rcases hcases hp with ⟨-, hnew⟩ | hp
    · exact (bare k p hnew).1
    · exact h.ids x k p hp
  case unique =>
    intro x y k p q hp hq
    rcases hcases hp with ⟨hx, hp⟩ | hp <;> rcases hcases hq with ⟨hy, hq⟩ | hq
    · exact hx.symm.trans hy
    · exact absurd hq (hother hp)
    · exact absurd hp (hother hq)
    · exact h.unique x y k p q hp hq
  case outs =>
    intro x k l p hp
    rcases hcases hp with ⟨-, hnew⟩ | hp
    · refine iff_of_false (hempty (bare k p hnew).2.1) fun he => ?_
      obtain ⟨x', y, p', q, hjoin⟩ := h.ends k l he
      exact hother hnew hjoin.source
    · exact h.outs x k l p hp
  case ins =>
    intro y l k q hq
    rcases hcases hq with ⟨-, hnew⟩ | hq
    · refine iff_of_false (hempty (bare l q hnew).2.2.1) fun he => ?_
      obtain ⟨x, y', p, q', hjoin⟩ := h.ends k l he
      exact hother hnew hjoin.target
    · exact h.ins y l k q hq
  case ends =>
    intro k l he
    obtain ⟨x, y, p, q, hjoin⟩ := h.ends k l he
    exact ⟨x, y, p, q, hold hjoin.source, hold hjoin.target, hjoin.output, hjoin.input, hjoin.apart, hjoin.kinds⟩

/-- The pins of a node go, and the connections that they were ends of. -/
theorem Wired.removed (h : b.Wired edge) {id : String} {gone : List String}
    (own : ∀ k, k ∈ gone ↔ (b.nodePin? id k).isSome = true)
    (pins : ∀ x k, b'.nodePin? x k = if id = x then none else (b.nodePin? x k).map (·.disconnectFrom gone)) :
    b'.Wired fun k l => edge k l ∧ k ∉ gone ∧ l ∉ gone := by
  have hnew : ∀ {x k p}, b.nodePin? x k = some p → k ∉ gone → b'.nodePin? x k = some (p.disconnectFrom gone) := by
    intro x k p hp hk
    rw [pins, if_neg, hp]
    · rfl
    · rintro rfl
      exact hk ((own k).mpr (by rw [hp]; rfl))
  refine h.of_old (fun x k p' hp' => ?_) fun k l he => ?_
  · rw [pins] at hp'
    split at hp'
    · cases hp'
    rename_i hx
    obtain ⟨p, hp, rfl⟩ := Option.map_eq_some_iff.mp hp'
    have hk : k ∉ gone := by
      intro hk
      obtain ⟨q, hq⟩ := Option.isSome_iff_exists.mp ((own k).mp hk)
      exact hx (h.unique id x k q p hq hp)
    refine ⟨p, hp, rfl, fun l => ?_, fun j => ?_⟩
    · have houts := h.outs x k l p hp
      simp only [Pin.disconnectFrom, KeySet.contains_eraseAll, Bool.and_eq_true, decide_eq_true_eq]
      tauto
    · have hins := h.ins x k j p hp
      simp only [Pin.disconnectFrom, KeySet.contains_eraseAll, Bool.and_eq_true, decide_eq_true_eq]
      tauto
  · obtain ⟨he, hk, hl⟩ := he
    obtain ⟨x, y, p, q, hjoin⟩ := h.ends k l he
    exact ⟨x, y, _, _, hnew hjoin.source hk, hnew hjoin.target hl, hjoin.output, hjoin.input, hjoin.apart, hjoin.kinds⟩

/-- A connection is made or removed at both ends. -/
theorem Wired.rewired (h : b.Wired edge) {w : Wire} {on : Bool} (ends : ∃ p q, b.Joins w p q)
    (pins : ∀ x k, b'.nodePin? x k = (b.nodePin? x k).map (·.setEnd x k w on)) :
    b'.Wired fun k l => if w.fromPin = k ∧ w.toPin = l then on = true else edge k l := by
  obtain ⟨source, target, hends⟩ := ends
  have hjoined : ∀ {x y k l p q}, b.Joins ⟨x, k, y, l⟩ p q →
      b'.Joins ⟨x, k, y, l⟩ (p.setEnd x k w on) (q.setEnd y l w on) := by
    intro x y k l p q hjoin
    refine ⟨?_, ?_, hjoin.output, hjoin.input, hjoin.apart, hjoin.kinds⟩
    · rw [pins, hjoin.source]
      rfl
    · rw [pins, hjoin.target]
      rfl
  refine h.of_old (fun x k p' hp' => ?_) fun k l he => ?_
  · rw [pins] at hp'
    obtain ⟨p, hp, rfl⟩ := Option.map_eq_some_iff.mp hp'
    -- As no other node has the pin, it is an end as soon as its id is that of an end.
    have hfrom : w.fromPin = k → w.fromNode = x := by
      rintro rfl
      exact h.unique _ _ _ _ _ hends.source hp
    have hto : w.toPin = k → w.toNode = x := by
      rintro rfl
      exact h.unique _ _ _ _ _ hends.target hp
    refine ⟨p, hp, rfl, fun l => ?_, fun j => ?_⟩
    · have houts := h.outs x k l p hp
      show (if w.fromNode = x ∧ w.fromPin = k then p.connectedTo.put w.toPin on else p.connectedTo).contains l = true ↔ _
      by_cases hk : w.fromPin = k
      · rw [if_pos ⟨hfrom hk, hk⟩, KeySet.contains_put]
        by_cases hl : w.toPin = l
        · rw [if_pos hl, if_pos ⟨hk, hl⟩]
        · rw [if_neg hl, if_neg fun e => hl e.2]
          exact houts
      · rw [if_neg fun e => hk e.2, if_neg fun e => hk e.1]
        exact houts
    · have hins := h.ins x k j p hp
      show (if w.toNode = x ∧ w.toPin = k then p.dependsOn.put w.fromPin on else p.dependsOn).contains j = true ↔ _
      by_cases hk : w.toPin = k
      · rw [if_pos ⟨hto hk, hk⟩, KeySet.contains_put]
        by_cases hj : w.fromPin = j
        · rw [if_pos hj, if_pos ⟨hj, hk⟩]
        · rw [if_neg hj, if_neg fun e => hj e.1]
          exact hins
      · rw [if_neg fun e => hk e.2, if_neg fun e => hk e.2]
        exact hins
  · split at he
    · rename_i hkl
      obtain ⟨rfl, rfl⟩ := hkl
      exact ⟨_, _, _, _, hjoined hends⟩
    · obtain ⟨x, y, p, q, hjoin⟩ := h.ends k l he
      exact ⟨x, y, _, _, hjoined hjoin⟩

/-- Every step keeps a board wired; a connection that was not there before is one that the mutation asks for. -/
theorem Wired.step (h : b.Wired edge) (hs : PinStep b m b') :
    ∃ edge', b'.Wired edge' ∧ ∀ k l, edge' k l → edge k l ∨ ∃ w, m = .connect w ∧ w.fromPin = k ∧ w.toPin = l := by
  cases hs with
  | kept f same pins => exact ⟨edge, h.kept same pins, fun _ _ he => Or.inl he⟩
  | added id new _ fresh bare pins => exact ⟨edge, h.added fresh bare pins, fun _ _ he => Or.inl he⟩
  | removed id gone _ own pins => exact ⟨_, h.removed own pins, fun _ _ he => Or.inl he.1⟩
  | wired w on connects ends pins =>
    refine ⟨_, h.rewired ends pins, fun k l he => ?_⟩
    split at he
    · rename_i hkl
      exact Or.inr ⟨w, connects he, hkl⟩
    · exact Or.inl he

/-! ### Mutations -/

theorem consistent_blank (id name : String) : (blank id name).Consistent where
  toInStep := inStep_blank id name
  ids x k p hp := by cases hp
  unique x y k p q hp hq := by cases hp
  twoWay x y k l p q hp hq := by cases hp
  known x k l p hp hl := by cases hp
  ends x y k l p q hp hq hl := by cases hp

/-- A proper mutation keeps the connections consistent, whether it is carried out or refused. -/
theorem Consistent.execute (h : b.Consistent) (hm : m.Proper) : (b.execute m).board.Consistent := by
  obtain ⟨edge', hwired, -⟩ := h.wired.step (h.toInStep.pinStep hm)
  exact hwired.consistent (h.toInStep.execute hm)

theorem Consistent.edge_execute (h : b.Consistent) (hm : m.Proper) (he : (b.execute m).board.Edge k l) :
    b.Edge k l ∨ ∃ w, m = .connect w ∧ w.fromPin = k ∧ w.toPin = l := by
  obtain ⟨edge', hwired, hadded⟩ := h.wired.step (h.toInStep.pinStep hm)
  exact hadded k l (hwired.edge_iff.mp he)

/-- The second end of a connection is the first end's. -/
theorem Consistent.edge_of_dependsOn (h : b.Consistent) (hq : b.nodePin? y l = some q)
    (hk : q.dependsOn.contains k = true) : b.Edge k l := (h.wired.ins y l k q hq).mp hk

theorem Consistent.pins_of_edge (h : b.Consistent) (he : b.Edge k l) :
    (∃ x p, b.nodePin? x k = some p) ∧ ∃ y q, b.nodePin? y l = some q := by
  obtain ⟨x, y, p, q, hjoin⟩ := h.wired.ends k l he
  exact ⟨⟨x, p, hjoin.source⟩, y, q, hjoin.target⟩

/-- Every pin stays. -/
def Grows (b b' : Board) : Prop := ∀ x k p, b.nodePin? x k = some p → ∃ q, b'.nodePin? x k = some q

theorem Grows.refl (b : Board) : b.Grows b := fun _ _ p hp => ⟨p, hp⟩

theorem Grows.trans {b'' : Board} (h : b.Grows b') (h' : b'.Grows b'') : b.Grows b'' := by
  intro x k p hp
  obtain ⟨q, hq⟩ := h x k p hp
  exact h' x k q hq

/-- Pins stay while nodes are made. -/
theorem PinStep.grows (hs : PinStep b m b') (hm : m.makesNode = true) : Grows b b' := by
  intro x k p hp
  cases hs with
  | kept f same pins => exact ⟨f x k p, by rw [pins, hp]; rfl⟩
  | added id new _ fresh bare pins =>
    refine ⟨p, ?_⟩
    rw [pins, if_neg, hp]
    rintro rfl
    rw [fresh] at hp
    cases hp
  | removed id gone makesNone own pins =>
    rw [hm] at makesNone
    cases makesNone
  | wired w on connects ends pins => exact ⟨p.setEnd x k w on, by rw [pins, hp]; rfl⟩

/-- No pin is new unless a node is made. -/
theorem PinStep.shrinks (hs : PinStep b m b') (hm : m.makesNode = false) : Grows b' b := by
  intro x k p' hp'
  cases hs with
  | kept f same pins =>
    rw [pins] at hp'
    obtain ⟨p, hp, -⟩ := Option.map_eq_some_iff.mp hp'
    exact ⟨p, hp⟩
  | added id new makes fresh bare pins =>
    rw [hm] at makes
    cases makes
  | removed id gone _ own pins =>
    rw [pins] at hp'
    split at hp'
    · cases hp'
    · obtain ⟨p, hp, -⟩ := Option.map_eq_some_iff.mp hp'
      exact ⟨p, hp⟩
  | wired w on connects ends pins =>
    rw [pins] at hp'
    obtain ⟨p, hp, -⟩ := Option.map_eq_some_iff.mp hp'
    exact ⟨p, hp⟩

/-! ### Boundary pins -/

/-- The pins on the boundaries of layers have no connections. -/
def BareBoundary (b : Board) : Prop :=
  ∀ layer l k p, b.layers.get? layer = some l → l.pins.get? k = some p → p.connectedTo = ∅ ∧ p.dependsOn = ∅

/-- Each layer has the boundary pins of one that was there before, or none. -/
def SameBoundaries (b b' : Board) : Prop :=
  ∀ layer l', b'.layers.get? layer = some l' → l'.pins = ∅ ∨ ∃ l, b.layers.get? layer = some l ∧ l'.pins = l.pins

theorem BareBoundary.of_same (h : b.BareBoundary) (hs : SameBoundaries b b') : b'.BareBoundary := by
  intro layer l' k p hl' hp
  rcases hs layer l' hl' with hempty | ⟨l, hl, hpins⟩
  · rw [hempty] at hp
    cases hp
  · rw [hpins] at hp
    exact h layer l k p hl hp

theorem SameBoundaries.of_layers (h : b'.layers = b.layers) : SameBoundaries b b' := fun layer l' hl' =>
  Or.inr ⟨l', by rw [← h]; exact hl', rfl⟩

theorem SameBoundaries.of_sameRest (h : SameRest b b') : SameBoundaries b b' := by
  intro layer l' hl'
  obtain ⟨l, hl, he⟩ := h.layer hl'
  exact Or.inr ⟨l, hl, by rw [he]⟩

theorem SameBoundaries.trans {b'' : Board} (h : SameBoundaries b b') (h' : SameBoundaries b' b'') : SameBoundaries b b'' := by
  intro layer l'' hl''
  rcases h' layer l'' hl'' with hempty | ⟨l', hl', hpins⟩
  · exact Or.inl hempty
  · rw [hpins]
    exact h layer l' hl'

theorem sameBoundaries_storeLayer {l : Layer} (hpins : l.pins = ∅) : SameBoundaries b (b.storeLayer l) := by
  intro layer l' hl'
  have hstored : (b.storedLayer l).pins = ∅ := by
    rw [← hpins]
    unfold storedLayer namedLayer
    split <;> split <;> rfl
  simp only [storeLayer, KeyMap.get?_insert] at hl'
  split at hl'
  · cases hl'
    exact Or.inl hstored
  · exact Or.inr ⟨l', hl', rfl⟩

theorem sameBoundaries_dissolveLayer (b : Board) (id : String) (parent : Option String) :
    SameBoundaries b (b.dissolveLayer id parent) := by
  intro layer l' hl'
  obtain ⟨-, l, hl, -, hpins, -⟩ := get?_layers_dissolveLayer hl'
  exact Or.inr ⟨l, hl, hpins⟩

theorem sameBoundaries_perform (hm : m.Proper) : SameBoundaries b (b.perform m).board := by
  refine perform_related SameBoundaries.of_sameRest SameBoundaries.trans (fun _ _ _ => .of_layers rfl) ?_
    sameBoundaries_dissolveLayer
  rintro l members rfl
  exact sameBoundaries_storeLayer hm.2.2

/-- A pin of a node or of a boundary has a connection to the pin of an id. -/
def Mentions (b : Board) (k : String) : Prop :=
  (∃ shelf x n j p, b.copy? shelf x = some n ∧ n.pins.get? j = some p ∧
    (p.connectedTo.contains k = true ∨ p.dependsOn.contains k = true)) ∨
  ∃ layer l j p, b.layers.get? layer = some l ∧ l.pins.get? j = some p ∧
    (p.connectedTo.contains k = true ∨ p.dependsOn.contains k = true)

/-- What is mentioned is there. -/
theorem Consistent.pin_of_mentions (h : b.Consistent) (hbare : b.BareBoundary) (hk : b.Mentions k) :
    ∃ y q, b.nodePin? y k = some q := by
  rcases hk with ⟨shelf, x, n, j, p, hn, hp, hk⟩ | ⟨layer, l, j, p, hl, hp, hk⟩
  · exact h.known x j k p (nodePin?_eq_some.mpr ⟨n, h.toInStep.top_of_copy? hn, hp⟩) hk
  · obtain ⟨hout, hin⟩ := hbare layer l j p hl hp
    rw [hout, hin] at hk
    rcases hk with hk | hk <;> cases hk

theorem BareBoundary.execute (h : b.BareBoundary) (hm : m.Proper) : (b.execute m).board.BareBoundary := by
  have hperform := h.of_same (sameBoundaries_perform (b := b) hm)
  exact board_execute hperform fun _ h => h.of_same (.of_layers rfl)

end Workboard.Board
