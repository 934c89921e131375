import Workboard.Proofs.Connections
import Workboard.Proofs.NodeIds

/-! The pins of nodes on boards with differing copies.

The copies of a node need not be in step; but if all of them have the same pins (`Board.PinsAt`), a change can be told by
what it does to these. A node that is removed takes its pins along and with them every connection to one of them, in all
copies of all nodes. -/

namespace Workboard

namespace KeySet

theorem eraseAll_append (s : KeySet) (l l' : List String) : s.eraseAll (l ++ l') = (s.eraseAll l).eraseAll l' :=
  List.foldl_append

end KeySet

/-- A pin has a connection to the pin of an id. -/
def Pin.Lists (p : Pin) (k : String) : Prop := p.connectedTo.contains k = true ∨ p.dependsOn.contains k = true

namespace KeyMap

variable {pins : KeyMap Pin} {gone : List String} {k : String}

/-- One of the pins has a connection to the pin of an id. -/
def Lists (pins : KeyMap Pin) (k : String) : Prop := ∃ j p, pins.get? j = some p ∧ p.Lists k

theorem contains_modify {j : String} {f : Pin → Pin} : (pins.modify j f).contains k = pins.contains k := by
  unfold contains
  rw [get?_modify]
  split
  · exact Option.isSome_map
  · rfl

theorem Lists.of_modify {j : String} {f : Pin → Pin} {P : Prop} (hf : ∀ p, (f p).Lists k → p.Lists k ∨ P)
    (h : (pins.modify j f).Lists k) : pins.Lists k ∨ P := by
  obtain ⟨i, p', hp', hk⟩ := h
  rw [get?_modify] at hp'
  split at hp'
  · obtain ⟨p, hp, rfl⟩ := Option.map_eq_some_iff.mp hp'
    exact (hf p hk).imp_left fun hk => ⟨i, p, hp, hk⟩
  · exact Or.inl ⟨i, p', hp', hk⟩

theorem contains_disconnectFrom : (pins.disconnectFrom gone).contains k = pins.contains k := by
  unfold contains
  rw [get?_disconnectFrom, Option.isSome_map]

theorem lists_disconnectFrom : (pins.disconnectFrom gone).Lists k ↔ pins.Lists k ∧ k ∉ gone := by
  constructor
  · rintro ⟨j, p', hp', hk⟩
    rw [get?_disconnectFrom] at hp'
    obtain ⟨p, hp, rfl⟩ := Option.map_eq_some_iff.mp hp'
    simp only [Pin.Lists, Pin.disconnectFrom, KeySet.contains_eraseAll, Bool.and_eq_true, decide_eq_true_eq] at hk
    exact ⟨⟨j, p, hp, hk.imp And.right And.right⟩, hk.elim And.left And.left⟩
  · rintro ⟨⟨j, p, hp, hk⟩, hgone⟩
    refine ⟨j, p.disconnectFrom gone, by rw [get?_disconnectFrom, hp]; rfl, ?_⟩
    simp only [Pin.Lists, Pin.disconnectFrom, KeySet.contains_eraseAll, Bool.and_eq_true, decide_eq_true_eq]
    exact hk.imp (And.intro hgone) (And.intro hgone)

theorem disconnectFrom_append (pins : KeyMap Pin) (gone gone' : List String) :
    pins.disconnectFrom (gone ++ gone') = (pins.disconnectFrom gone).disconnectFrom gone' := by
  refine ext fun k => ?_
  rw [get?_disconnectFrom, get?_disconnectFrom, get?_disconnectFrom, Option.map_map]
  refine congrArg (fun f => Option.map f (pins.get? k)) (funext fun p => ?_)
  simp only [Pin.disconnectFrom, KeySet.eraseAll_append, Function.comp_apply]

theorem disconnectFrom_nil (pins : KeyMap Pin) : pins.disconnectFrom [] = pins := by
  refine ext fun k => ?_
  rw [get?_disconnectFrom]
  exact Option.map_id'

end KeyMap

namespace Board

variable {b b' : Board} {x id k : String} {n : Node} {o : Option (KeyMap Pin)} {parent : Option String}

/-- The pins of a node. -/
def pinsOf? (b : Board) (x : String) : Option (KeyMap Pin) := (b.node? x).map (·.pins)

/-- The pins on a layer's boundary. -/
def rimOf? (b : Board) (layer : String) : Option (KeyMap Pin) := (b.layers.get? layer).map (·.pins)

/-- Every copy of a node has these pins; there are none if there is no copy. -/
structure PinsAt (b : Board) (x : String) (o : Option (KeyMap Pin)) : Prop where
  pins : ∀ shelf n, b.copy? shelf x = some n → o = some n.pins
  found : o.isSome = true → ∃ shelf n, b.copy? shelf x = some n

/-- The copies of a node agree on its pins. -/
def Uniform (b : Board) : Prop := ∀ shelf x m n, b.copy? shelf x = some m → b.node? x = some n → m.pins = n.pins

theorem PinsAt.pinsOf? (h : b.PinsAt x o) : b.pinsOf? x = o := by
  unfold Board.pinsOf?
  cases hn : b.node? x with
  | none =>
    cases o with
    | none => rfl
    | some pins =>
      have hsome := node?_isSome_iff.mpr (h.found rfl)
      rw [hn] at hsome
      cases hsome
  | some n =>
    obtain ⟨shelf, hc⟩ := copy?_of_node? hn
    exact (h.pins shelf n hc).symm

theorem Uniform.pinsAt (h : b.Uniform) (x : String) : b.PinsAt x (b.pinsOf? x) := by
  unfold Board.pinsOf?
  refine ⟨fun shelf m hm => ?_, fun hsome => ?_⟩
  · obtain ⟨n, hn⟩ := Option.isSome_iff_exists.mp (node?_isSome_iff.mpr ⟨shelf, m, hm⟩)
    rw [hn, Option.map_some, h shelf x m n hm hn]
  · rw [Option.isSome_map] at hsome
    exact node?_isSome_iff.mp hsome

/-! ### Pins by what they mention -/

theorem mentions_iff (h : ∀ x, b.PinsAt x (b.pinsOf? x)) :
    b.Mentions k ↔ (∃ x pins, b.pinsOf? x = some pins ∧ pins.Lists k) ∨ ∃ layer pins, b.rimOf? layer = some pins ∧ pins.Lists k := by
  refine or_congr ?_ ?_
  · constructor
    · rintro ⟨shelf, x, n, j, p, hn, hp, hk⟩
      exact ⟨x, n.pins, (h x).pins shelf n hn, j, p, hp, hk⟩
    · rintro ⟨x, pins, hpins, j, p, hp, hk⟩
      obtain ⟨n, hn, rfl⟩ := Option.map_eq_some_iff.mp hpins
      obtain ⟨shelf, hc⟩ := copy?_of_node? hn
      exact ⟨shelf, x, n, j, p, hc, hp, hk⟩
  · constructor
    · rintro ⟨layer, l, j, p, hl, hp, hk⟩
      exact ⟨layer, l.pins, by rw [rimOf?, hl]; rfl, j, p, hp, hk⟩
    · rintro ⟨layer, pins, hpins, j, p, hp, hk⟩
      obtain ⟨l, hl, rfl⟩ := Option.map_eq_some_iff.mp hpins
      exact ⟨layer, l, j, p, hl, hp, hk⟩

theorem Keyed.pin?_isSome_iff (hb : b.Keyed) : (b.pin? k).isSome = true ↔
    (∃ x pins, b.pinsOf? x = some pins ∧ pins.contains k = true) ∨
      ∃ layer pins, b.rimOf? layer = some pins ∧ pins.contains k = true := by
  have hnodes : (b.allNodes.findSome? (·.pins.get? k)).isSome = true ↔
      ∃ x pins, b.pinsOf? x = some pins ∧ pins.contains k = true := by
    rw [List.findSome?_isSome_iff]
    constructor
    · rintro ⟨n, hn, hk⟩
      exact ⟨n.id, n.pins, by rw [pinsOf?, hb.mem_allNodes.mp hn]; rfl, hk⟩
    · rintro ⟨x, pins, hpins, hk⟩
      obtain ⟨n, hn, rfl⟩ := Option.map_eq_some_iff.mp hpins
      have hid := hb.id_of_node? hn
      exact ⟨n, hb.mem_allNodes.mpr (by rw [hid, hn]), hk⟩
  have hrims : (b.layers.values.findSome? (·.pins.get? k)).isSome = true ↔
      ∃ layer pins, b.rimOf? layer = some pins ∧ pins.contains k = true := by
    rw [List.findSome?_isSome_iff]
    constructor
    · rintro ⟨l, hl, hk⟩
      obtain ⟨layer, hl⟩ := KeyMap.mem_values.mp hl
      exact ⟨layer, l.pins, by rw [rimOf?, hl]; rfl, hk⟩
    · rintro ⟨layer, pins, hpins, hk⟩
      obtain ⟨l, hl, rfl⟩ := Option.map_eq_some_iff.mp hpins
      exact ⟨l, KeyMap.mem_values.mpr ⟨layer, hl⟩, hk⟩
  rw [← hnodes, ← hrims]
  unfold pin?
  cases b.allNodes.findSome? (·.pins.get? k) <;> simp

theorem SameRest.rimOf? (h : SameRest b b') (layer : String) : b'.rimOf? layer = b.rimOf? layer := by
  have hrim : ∀ b : Board, b.rimOf? layer = (b.bareLayers.get? layer).map (·.pins) := fun b => by
    rw [Board.rimOf?, get?_bareLayers, Option.map_map]
    rfl
  rw [hrim, hrim, h.layers]

theorem rimOf?_dissolveLayer (b : Board) (id : String) (parent : Option String) (layer : String) :
    (b.dissolveLayer id parent).rimOf? layer = if id = layer then none else b.rimOf? layer := by
  simp only [rimOf?, dissolveLayer, KeyMap.get?_erase, KeyMap.get?_mapValues]
  split
  · rfl
  · rw [Option.map_map]
    refine congrArg (fun f => Option.map f (b.layers.get? layer)) (funext fun l => ?_)
    rw [Function.comp_apply]
    split <;> rfl

/-! ### Elementary changes -/

theorem PinsAt.of_copy?_eq (h : b.PinsAt x o) (he : ∀ shelf, b'.copy? shelf x = b.copy? shelf x) : b'.PinsAt x o where
  pins shelf n hn := h.pins shelf n ((he shelf).symm.trans hn)
  found hsome := by
    obtain ⟨shelf, n, hn⟩ := h.found hsome
    exact ⟨shelf, n, (he shelf).trans hn⟩

theorem pinsAt_none (h : ∀ shelf, b.copy? shelf x = none) : b.PinsAt x none where
  pins shelf n hn := by
    rw [h] at hn
    cases hn
  found hsome := by cases hsome

theorem PinsAt.editNodes (h : b.PinsAt x o) {ids : List String} (hnodup : ids.Nodup) {f : Node → Node}
    {g : KeyMap Pin → KeyMap Pin} (hf : ∀ n, (f n).pins = g n.pins) :
    (b.editNodes ids f).PinsAt x (if x ∈ ids then o.map g else o) := by
  refine ⟨fun shelf n hn => ?_, fun hsome => ?_⟩
  · rw [copy?_editNodes hnodup] at hn
    split at hn
    · rename_i hx
      obtain ⟨m, hm, rfl⟩ := Option.map_eq_some_iff.mp hn
      rw [if_pos hx, h.pins shelf m hm, hf]
      rfl
    · rename_i hx
      rw [if_neg hx]
      exact h.pins shelf n hn
  · have hsome' : o.isSome = true := by
      split at hsome
      · rwa [Option.isSome_map] at hsome
      · exact hsome
    obtain ⟨shelf, n, hn⟩ := h.found hsome'
    have hkept := isSome_copy?_editNodes b ids f shelf x
    rw [hn] at hkept
    exact ⟨shelf, Option.isSome_iff_exists.mp hkept⟩

theorem PinsAt.assignLayer (h : b.PinsAt x o) (hb : b.Keyed) (id : String) (layer : Option String) :
    (b.assignLayer id layer).PinsAt x o := by
  by_cases hid : id = x
  · subst hid
    cases hn : b.node? id with
    | none =>
      rw [assignLayer_of_node?_eq_none hn]
      exact h
    | some n =>
      obtain ⟨shelf, hc⟩ := copy?_of_node? hn
      refine ⟨fun shelf' m hm => ?_, fun _ => ⟨none, { n with layer }, ?_⟩⟩
      · rcases copy?_assignLayer_cases hn hm with ⟨hm, -⟩ | ⟨-, rfl⟩
        · exact h.pins shelf' m hm
        · exact h.pins shelf n hc
      · rw [copy?_assignLayer_none hn (hb.id_of_node? hn), if_pos rfl]
  · exact h.of_copy?_eq fun shelf => hb.copy?_assignLayer_ne layer shelf hid

theorem PinsAt.assignLayers (h : b.PinsAt x o) (hb : b.Keyed) (ids : List String) (layer : Option String) :
    (b.assignLayers ids layer).PinsAt x o :=
  (board_assignLayers (P := fun b => b.Keyed ∧ b.PinsAt x o) ⟨hb, h⟩
    (fun _ id h => ⟨h.1.assignLayer id layer, h.2.assignLayer h.1 id layer⟩) ids).2

/-- All copies of a node are in a layer. -/
def OnlyIn (b : Board) (layer x : String) : Prop := ∀ shelf, (b.copy? shelf x).isSome = true → shelf = some layer

theorem onlyIn_congr {layer : String} (h : ∀ shelf, (b'.copy? shelf x).isSome = (b.copy? shelf x).isSome) :
    b'.OnlyIn layer x ↔ b.OnlyIn layer x := forall_congr' fun shelf => by rw [h]

/-- A node that has a copy elsewhere stays when a layer goes. -/
theorem PinsAt.dissolveLayer (h : b.PinsAt x o) (hx : ¬ b.OnlyIn id x) (parent : Option String) :
    (b.dissolveLayer id parent).PinsAt x o := by
  have hcopy : ∀ shelf, shelf ≠ some id → (b.dissolveLayer id parent).copy? shelf x = b.copy? shelf x := by
    rintro (_ | layer) hne
    · rfl
    · rw [copy?_dissolveLayer_some, if_neg fun e => hne (congrArg some e.symm)]
  refine ⟨fun shelf n hn => ?_, fun _ => ?_⟩
  · by_cases hshelf : shelf = some id
    · rw [hshelf, copy?_dissolveLayer_some, if_pos rfl] at hn
      cases hn
    · exact h.pins shelf n ((hcopy shelf hshelf).symm.trans hn)
  · unfold OnlyIn at hx
    push Not at hx
    obtain ⟨shelf, hn, hshelf⟩ := hx
    obtain ⟨n, hn⟩ := Option.isSome_iff_exists.mp hn
    exact ⟨shelf, n, (hcopy shelf hshelf).trans hn⟩

theorem OnlyIn.pinsAt_dissolveLayer (h : b.OnlyIn id x) (parent : Option String) : (b.dissolveLayer id parent).PinsAt x none := by
  refine pinsAt_none fun shelf => Option.not_isSome_iff_eq_none.mp fun hn => ?_
  cases shelf with
  | none => cases h none hn
  | some layer =>
    rw [copy?_dissolveLayer_some] at hn
    split at hn
    · cases hn
    · rename_i hne
      exact hne (Option.some.inj (h _ hn)).symm

/-! ### Removing nodes -/

theorem Keyed.removeNode (hb : b.Keyed) (id : String) : (b.removeNode id).board.Keyed := by
  have hlabels : b.Labelled fun key id => id = key := keyed_iff.mp hb
  exact keyed_iff.mpr (hlabels.removeNode id)

/-- All other nodes lose their connections to the pins of the removed one. -/
theorem PinsAt.removeNode (h : b.PinsAt x o) (hb : b.Keyed) (hn : b.node? id = some n) :
    (b.removeNode id).board.PinsAt x (if id = x then none else o.map (·.disconnectFrom n.pins.keys)) := by
  rw [removeNode_of_node? hn]
  by_cases hx : id = x
  · rw [if_pos hx]
    refine pinsAt_none fun shelf => ?_
    rw [← Option.not_isSome_iff_eq_none, isSome_copy?_editNodes, copy?_dropNode, if_pos hx]
    exact Bool.false_ne_true
  · have hrest : (b.dropNode id).PinsAt x o := h.of_copy?_eq fun shelf => by rw [copy?_dropNode, if_neg hx]
    have hnodup : ((b.dropNode id).neighbours n.pins.keys).Nodup :=
      Node.nodup_map_id_distinct.sublist (List.filter_sublist.map _)
    have hedited := hrest.editNodes hnodup (f := (·.disconnectFrom n.pins.keys)) (g := (·.disconnectFrom n.pins.keys))
      fun _ => rfl
    rw [if_neg hx]
    split at hedited
    · exact hedited
    · rename_i hno
      suffices hsame : o.map (·.disconnectFrom n.pins.keys) = o by
        rw [hsame]
        exact hedited
      obtain rfl := hrest.pinsOf?
      unfold Board.pinsOf?
      cases hm : (b.dropNode id).node? x with
      | none => rfl
      | some m => exact congrArg some ((hb.dropNode id).disconnectFrom_of_notMem hno hm)

theorem isSome_copy?_removeNodes {ids : List String} (hx : x ∉ ids) (shelf : Option String) :
    ((b.removeNodes ids).1.copy? shelf x).isSome = (b.copy? shelf x).isSome := by
  have hone : ∀ {b : Board} {id : String}, id ≠ x → ((b.removeNode id).board.copy? shelf x).isSome = (b.copy? shelf x).isSome := by
    intro b id hne
    refine Effect.board_given (P := fun b' => (b'.copy? shelf x).isSome = (b.copy? shelf x).isSome) rfl fun n _ => ?_
    refine (isSome_copy?_editNodes _ ((b.dropNode id).neighbours n.pins.keys) _ shelf x).trans ?_
    rw [copy?_dropNode, if_neg hne]
  exact board_removeNodes (P := fun b' => (b'.copy? shelf x).isSome = (b.copy? shelf x).isSome) rfl fun b' id hid h =>
    (hone fun e => hx (e ▸ hid)).trans h

/-- All nodes that are left lose their connections to the pins of the removed ones. -/
theorem Keyed.pinsAt_removeNodes (hb : b.Keyed) {pins : String → Option (KeyMap Pin)} (h : ∀ x, b.PinsAt x (pins x))
    {ids : List String} (hnodup : ids.Nodup) (hfound : ∀ id ∈ ids, (b.node? id).isSome = true) :
    ∃ gone, (∀ k, k ∈ gone ↔ ∃ x ∈ ids, ∃ own, pins x = some own ∧ own.contains k = true) ∧
      ∀ x, (b.removeNodes ids).1.PinsAt x (if x ∈ ids then none else (pins x).map (·.disconnectFrom gone)) := by
  induction ids generalizing b pins with
  | nil =>
    refine ⟨[], fun k => by simp, fun x => ?_⟩
    simp only [List.not_mem_nil, if_false, KeyMap.disconnectFrom_nil, Option.map_id']
    exact h x
  | cons id ids ih =>
    obtain ⟨hid, hnodup⟩ := List.nodup_cons.mp hnodup
    obtain ⟨n, hn⟩ := Option.isSome_iff_exists.mp (hfound id List.mem_cons_self)
    have hown : pins id = some n.pins := by
      rw [← (h id).pinsOf?, pinsOf?, hn]
      rfl
    have hrest : ∀ j ∈ ids, ((b.removeNode id).board.node? j).isSome = true := fun j hj =>
      node?_isSome_removeNode (fun e => hid (e ▸ hj)) (hfound j (List.mem_cons_of_mem id hj))
    obtain ⟨gone, hgone, hafter⟩ := ih (hb.removeNode id) (fun x => (h x).removeNode hb hn) hnodup hrest
    refine ⟨n.pins.keys ++ gone, fun k => ?_, fun x => ?_⟩
    · rw [List.mem_append, KeyMap.mem_keys, hgone, List.exists_mem_cons_iff, hown]
      refine or_congr (by simp) (exists_congr fun x => and_congr_right fun hx => ?_)
      rw [if_neg (by rintro rfl; exact hid hx)]
      simp [KeyMap.contains_disconnectFrom]
    · rw [removeNodes_cons hn]
      by_cases hx : id = x
      · subst hx
        have := hafter id
        rw [if_neg hid, if_pos rfl] at this
        rwa [if_pos List.mem_cons_self]
      · have := hafter x
        rw [if_neg hx, Option.map_map] at this
        simpa only [List.mem_cons, Ne.symm hx, false_or, KeyMap.disconnectFrom_append, Function.comp_def] using this

end Board

end Workboard
