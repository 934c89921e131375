import Workboard.Proofs.Changes

/-! Nodes and their mirrors.

A node at board level that a layer owns has an equal copy in that layer, if there is this layer, and in no other
(`Board.Mirrors`). This is said node by node, so an elementary change has to be looked at only where it changes a node. -/

namespace Workboard

/-- A change that leaves a node its id and its layer, and its pins under their ids. -/
structure Node.Harmless (f : Node → Node) : Prop where
  id : ∀ n, (f n).id = n.id
  layer : ∀ n, (f n).layer = n.layer
  pins : ∀ n, n.pins.Keyed Pin.id → (f n).pins.Keyed Pin.id

namespace Board

variable {b b' : Board} {x : String}

theorem contains_of_copy? {layer : String} {n : Node} (h : b.copy? (some layer) x = some n) :
    b.layers.contains layer = true := by
  obtain ⟨l, hl, -⟩ := copy?_some_eq_some.mp h
  exact KeyMap.contains_iff.mpr ⟨l, hl⟩

/-- The node of an id is stored under it, with its pins under theirs; just the layer that owns it has a copy of it, the
same as at board level. The layer need not exist. -/
structure Mirrors (b : Board) (x : String) : Prop where
  id : ∀ n, b.copy? none x = some n → n.id = x
  pins : ∀ n, b.copy? none x = some n → n.pins.Keyed Pin.id
  mirror : ∀ layer n, b.layers.contains layer = true →
    (b.copy? (some layer) x = some n ↔ b.copy? none x = some n ∧ n.layer = some layer)

/-- A copy in a layer is that at board level. -/
theorem Mirrors.top (h : b.Mirrors x) {layer : String} {n : Node} (hn : b.copy? (some layer) x = some n) :
    b.copy? none x = some n := ((h.mirror layer n (contains_of_copy? hn)).mp hn).1

theorem Mirrors.of_copy?_none (h : ∀ shelf, b.copy? shelf x = none) : b.Mirrors x where
  id n hn := by
    rw [h] at hn
    cases hn
  pins n hn := by
    rw [h] at hn
    cases hn
  mirror layer n _ := by
    rw [h, h]
    simp

/-- The copies stay in the layers that stay. -/
theorem Mirrors.of_copy?_eq (h : b.Mirrors x) (htop : b'.copy? none x = b.copy? none x)
    (hlayers : ∀ layer, b'.layers.contains layer = true →
      b.layers.contains layer = true ∧ b'.copy? (some layer) x = b.copy? (some layer) x) : b'.Mirrors x where
  id n hn := h.id n (htop.symm.trans hn)
  pins n hn := h.pins n (htop.symm.trans hn)
  mirror layer n hl := by
    obtain ⟨hl, he⟩ := hlayers layer hl
    rw [he, htop]
    exact h.mirror layer n hl

theorem Mirrors.of_sameRest (h : b.Mirrors x) (hr : SameRest b b') (he : ∀ shelf, b'.copy? shelf x = b.copy? shelf x) :
    b'.Mirrors x :=
  h.of_copy?_eq (he none) fun layer hl => ⟨(hr.contains layer).symm.trans hl, he (some layer)⟩

theorem Mirrors.editNode_self (h : b.Mirrors x) {f : Node → Node}
    (hf : ∀ n, b.copy? none x = some n → (f n).id = n.id ∧ (f n).layer = n.layer ∧ (f n).pins.Keyed Pin.id) :
    (b.editNode x f).Mirrors x := by
  have hcopy : ∀ shelf n', (b.editNode x f).copy? shelf x = some n' ↔ ∃ n, b.copy? shelf x = some n ∧ f n = n' := by
    intro shelf n'
    rw [copy?_editNode, if_pos rfl]
    exact Option.map_eq_some_iff
  refine ⟨fun n' hn' => ?_, fun n' hn' => ?_, fun layer n' hl => ?_⟩
  · obtain ⟨n, hn, rfl⟩ := (hcopy none n').mp hn'
    exact (hf n hn).1.trans (h.id n hn)
  · obtain ⟨n, hn, rfl⟩ := (hcopy none n').mp hn'
    exact (hf n hn).2.2
  · rw [(sameRest_editNode b x f).contains] at hl
    rw [hcopy, hcopy]
    constructor
    · rintro ⟨n, hn, rfl⟩
      obtain ⟨htop, hown⟩ := (h.mirror layer n hl).mp hn
      exact ⟨⟨n, htop, rfl⟩, (hf n htop).2.1.trans hown⟩
    · rintro ⟨⟨n, htop, rfl⟩, hown⟩
      exact ⟨n, (h.mirror layer n hl).mpr ⟨htop, (hf n htop).2.1.symm.trans hown⟩, rfl⟩

/-- Where all copies of a node are replaced they stay in their layers; so the new node has to name the same layer, as far as
the layer exists. -/
theorem Mirrors.replace_iff {n old : Node} (h : b.Mirrors n.id) (hold : b.copy? none n.id = some old) :
    (b.editNode n.id fun _ => n).Mirrors n.id ↔
      n.pins.Keyed Pin.id ∧ ∀ layer, b.layers.contains layer = true → (n.layer = some layer ↔ old.layer = some layer) := by
  have htop : (b.editNode n.id fun _ => n).copy? none n.id = some n := by
    rw [copy?_editNode, if_pos rfl, hold]
    rfl
  -- The copy in a layer is there as before, and is the new node.
  have hcopy : ∀ layer m, b.layers.contains layer = true →
      ((b.editNode n.id fun _ => n).copy? (some layer) n.id = some m ↔ old.layer = some layer ∧ m = n) := by
    intro layer m hl
    rw [copy?_editNode, if_pos rfl, Option.map_eq_some_iff]
    constructor
    · rintro ⟨m, hm, rfl⟩
      obtain ⟨hm, hown⟩ := (h.mirror layer m hl).mp hm
      rw [hold] at hm
      cases hm
      exact ⟨hown, rfl⟩
    · rintro ⟨hown, rfl⟩
      exact ⟨old, (h.mirror layer old hl).mpr ⟨hold, hown⟩, rfl⟩
  constructor
  · intro hafter
    refine ⟨hafter.pins n htop, fun layer hl => ?_⟩
    have hmirror := hafter.mirror layer n ((sameRest_editNode b n.id _).contains layer |>.trans hl)
    rw [hcopy layer n hl, htop] at hmirror
    simpa using hmirror.symm
  · rintro ⟨hpins, hlayer⟩
    refine ⟨fun m hm => ?_, fun m hm => ?_, fun layer m hl => ?_⟩
    · rw [htop] at hm
      cases hm
      rfl
    · rw [htop] at hm
      cases hm
      exact hpins
    · rw [(sameRest_editNode b n.id _).contains] at hl
      rw [hcopy layer m hl, htop, Option.some.injEq, ← hlayer layer hl]
      constructor
      · rintro ⟨hown, rfl⟩
        exact ⟨rfl, hown⟩
      · rintro ⟨rfl, hown⟩
        exact ⟨hown, rfl⟩

/-- A node of which no layer has a copy is stored with its mirror. -/
theorem mirrors_storeNode {n : Node} (hno : ∀ layer, b.copy? (some layer) n.id = none) (hpins : n.pins.Keyed Pin.id) :
    (b.storeNode n).Mirrors n.id := by
  have htop : (b.storeNode n).copy? none n.id = some n := by rw [copy?_storeNode_none, if_pos rfl]
  refine ⟨fun m hm => ?_, fun m hm => ?_, fun layer m hl => ?_⟩
  · rw [htop] at hm
    cases hm
    rfl
  · rw [htop] at hm
    cases hm
    exact hpins
  · rw [(sameRest_storeNode b n).contains] at hl
    rw [htop, copy?_storeNode_some, hno, Option.some.injEq]
    constructor
    · intro hm
      split at hm
      · rename_i hown
        cases hm
        exact ⟨rfl, hown.2.1⟩
      · cases hm
    · rintro ⟨rfl, hown⟩
      rw [if_pos ⟨rfl, hown, hl⟩]

/-- Whatever copies there were of a node, it has its mirrors once it is assigned to a layer. -/
theorem mirrors_assignLayer {id : String} {n : Node} (hn : b.node? id = some n) (hid : n.id = id) (hpins : n.pins.Keyed Pin.id)
    (layer : Option String) : (b.assignLayer id layer).Mirrors id := by
  subst hid
  unfold Board.assignLayer
  rw [hn]
  refine mirrors_storeNode (n := { n with layer }) (fun own => ?_) hpins
  rw [copy?_unmirror_some, if_pos rfl]

end Board

end Workboard
