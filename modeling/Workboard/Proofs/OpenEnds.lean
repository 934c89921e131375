import Workboard.Proofs.Mirrored
import Workboard.Proofs.NodePins

/-! Connections to pins that are gone.

On a closed board every connection leads to a pin of a node or of a layer's boundary (`Board.Closed`). Most mutations keep it
so. A removal deletes the connections to the pins of the nodes that it removes, but on the other nodes only: boundaries keep
theirs, and so do all pins that were connected to the boundary of a removed layer or to a node that goes with the layer. What is
left over is told by `Board.LeftOver`, and nothing else keeps a board from being closed (`Board.execute_closed_iff`). -/

namespace Workboard

/-- Whether a mutation takes pins off the board. -/
def Mutation.removesPins : Mutation → Bool
  | .removeNode _ | .removeLayer .. => true
  | _ => false

/-- A mutation takes a layer off the board. -/
def Mutation.Dissolves : Mutation → String → Prop
  | .removeLayer id _, layer => id = layer
  | _, _ => False

namespace Board

variable {b b' : Board} {x id k : String} {m : Mutation} {r : Receipt} {gone : List String}

/-- Every connection is to a pin of the board. -/
def Closed (b : Board) : Prop := ∀ k, b.Mentions k → (b.pin? k).isSome = true

theorem closed_iff_pins : b.Closed ↔ ∀ pins ∈ b.nodeCopies.map (·.pins) ++ b.layers.values.map (·.pins), ∀ p ∈ pins.values,
    ∀ k ∈ p.connectedTo.toList ++ p.dependsOn.toList, (b.pin? k).isSome = true := by
  have hlists : ∀ (p : Pin) k, k ∈ p.connectedTo.toList ++ p.dependsOn.toList ↔ p.Lists k := fun p k => by
    rw [List.mem_append, KeySet.mem_toList, KeySet.mem_toList, Pin.Lists]
  simp only [hlists, List.mem_append, List.mem_map, mem_nodeCopies, KeyMap.mem_values]
  constructor
  · rintro h pins (⟨n, ⟨shelf, x, hn⟩, rfl⟩ | ⟨l, ⟨layer, hl⟩, rfl⟩) p ⟨j, hp⟩ k hk
    · exact h k (Or.inl ⟨shelf, x, n, j, p, hn, hp, hk⟩)
    · exact h k (Or.inr ⟨layer, l, j, p, hl, hp, hk⟩)
  · rintro h k (⟨shelf, x, n, j, p, hn, hp, hk⟩ | ⟨layer, l, j, p, hl, hp, hk⟩)
    · exact h n.pins (Or.inl ⟨n, ⟨shelf, x, hn⟩, rfl⟩) p ⟨j, hp⟩ k hk
    · exact h l.pins (Or.inr ⟨l, ⟨layer, hl⟩, rfl⟩) p ⟨j, hp⟩ k hk

instance : Decidable b.Closed := decidable_of_iff _ closed_iff_pins.symm

/-! ### What is left over -/

/-- A node is removed, by its id or as a member of a layer. -/
def Removes (b : Board) : Mutation → String → Prop
  | .removeNode id, x => id = x
  | .removeLayer layer keepNodes, x => keepNodes = false ∧ x ∈ b.membersOf layer
  | _, _ => False

/-- A node is no member of a layer that is removed, but has no copy elsewhere. -/
def TakesAlong (b : Board) : Mutation → String → Prop
  | .removeLayer layer _, x => x ∉ b.membersOf layer ∧ b.OnlyIn layer x
  | _, _ => False

/-- A node is on the board afterwards. -/
def Stays (b : Board) (m : Mutation) (x : String) : Prop := ¬ b.Removes m x ∧ ¬ b.TakesAlong m x

/-- A pin of this id is on the board afterwards. -/
def KeepsPin (b : Board) (m : Mutation) (k : String) : Prop :=
  (∃ x pins, b.pinsOf? x = some pins ∧ b.Stays m x ∧ pins.contains k = true) ∨
  ∃ layer pins, b.rimOf? layer = some pins ∧ ¬ m.Dissolves layer ∧ pins.contains k = true

/-- A connection to a pin of this id is on the board afterwards: one of a node, if no node that is removed has such a pin, or
    one of a boundary. -/
def KeepsConnection (b : Board) (m : Mutation) (k : String) : Prop :=
  (∃ x pins, b.pinsOf? x = some pins ∧ b.Stays m x ∧ pins.Lists k ∧
    ∀ y own, b.Removes m y → b.pinsOf? y = some own → own.contains k = false) ∨
  ∃ layer pins, b.rimOf? layer = some pins ∧ ¬ m.Dissolves layer ∧ pins.Lists k

/-- A connection that is kept, although its pin is not. -/
structure LeftOver (b : Board) (m : Mutation) (k : String) : Prop where
  connection : b.KeepsConnection m k
  pin : ¬ b.KeepsPin m k

/-! ### Mutations that remove pins -/

/-- What is left of the pins after a removal. -/
structure Pruned (b : Board) (m : Mutation) (gone : List String) (b' : Board) : Prop where
  keyed : b'.Keyed
  own : ∀ k, k ∈ gone ↔ ∃ x, b.Removes m x ∧ ∃ own, b.pinsOf? x = some own ∧ own.contains k = true
  kept : ∀ x, b.Stays m x → b'.PinsAt x ((b.pinsOf? x).map (·.disconnectFrom gone))
  lost : ∀ x, ¬ b.Stays m x → b'.PinsAt x none
  rims : ∀ layer pins, b'.rimOf? layer = some pins ↔ b.rimOf? layer = some pins ∧ ¬ m.Dissolves layer

theorem Pruned.pinsAt (h : Pruned b m gone b') (x : String) : b'.PinsAt x (b'.pinsOf? x) := by
  by_cases hx : b.Stays m x
  · have hkept := h.kept x hx
    rwa [← hkept.pinsOf?] at hkept
  · have hlost := h.lost x hx
    rwa [← hlost.pinsOf?] at hlost

theorem Pruned.pinsOf?_eq_some (h : Pruned b m gone b') {pins' : KeyMap Pin} : b'.pinsOf? x = some pins' ↔
    ∃ pins, b.pinsOf? x = some pins ∧ b.Stays m x ∧ pins.disconnectFrom gone = pins' := by
  by_cases hx : b.Stays m x
  · rw [(h.kept x hx).pinsOf?, Option.map_eq_some_iff]
    simp only [hx, true_and]
  · rw [(h.lost x hx).pinsOf?]
    simp only [hx, false_and, and_false, exists_false, reduceCtorEq]

theorem Pruned.mentions_iff (h : Pruned b m gone b') : b'.Mentions k ↔ b.KeepsConnection m k := by
  rw [Board.mentions_iff h.pinsAt]
  refine or_congr ?_ (exists_congr fun layer => exists_congr fun pins => ?_)
  · constructor
    · rintro ⟨x, pins', hpins', hk⟩
      obtain ⟨pins, hpins, hx, rfl⟩ := h.pinsOf?_eq_some.mp hpins'
      obtain ⟨hk, hgone⟩ := KeyMap.lists_disconnectFrom.mp hk
      refine ⟨x, pins, hpins, hx, hk, fun y own hy hown => ?_⟩
      exact Bool.eq_false_iff.mpr fun hmem => hgone ((h.own k).mpr ⟨y, hy, own, hown, hmem⟩)
    · rintro ⟨x, pins, hpins, hx, hk, hnone⟩
      refine ⟨x, _, h.pinsOf?_eq_some.mpr ⟨pins, hpins, hx, rfl⟩, KeyMap.lists_disconnectFrom.mpr ⟨hk, fun hgone => ?_⟩⟩
      obtain ⟨y, hy, own, hown, hmem⟩ := (h.own k).mp hgone
      exact Bool.false_ne_true ((hnone y own hy hown).symm.trans hmem)
  · rw [h.rims, and_assoc]

theorem Pruned.pin?_isSome_iff (h : Pruned b m gone b') : (b'.pin? k).isSome = true ↔ b.KeepsPin m k := by
  rw [h.keyed.pin?_isSome_iff]
  refine or_congr ⟨?_, ?_⟩ (exists_congr fun layer => exists_congr fun pins => ?_)
  · rintro ⟨x, pins', hpins', hk⟩
    obtain ⟨pins, hpins, hx, rfl⟩ := h.pinsOf?_eq_some.mp hpins'
    exact ⟨x, pins, hpins, hx, KeyMap.contains_disconnectFrom.symm.trans hk⟩
  · rintro ⟨x, pins, hpins, hx, hk⟩
    exact ⟨x, _, h.pinsOf?_eq_some.mpr ⟨pins, hpins, hx, rfl⟩, KeyMap.contains_disconnectFrom.trans hk⟩
  · rw [h.rims, and_assoc]

theorem Pruned.closed_iff (h : Pruned b m gone b') : b'.Closed ↔ ∀ k, ¬ b.LeftOver m k := by
  refine forall_congr' fun k => ?_
  rw [h.mentions_iff, h.pin?_isSome_iff]
  exact ⟨fun hkeeps hleft => hleft.pin (hkeeps hleft.connection), fun hnone hk => by_contra fun hpin => hnone ⟨hk, hpin⟩⟩

theorem pruned_removeNode (hb : b.Keyed) (huniform : b.Uniform) {n : Node} (hn : b.node? id = some n) :
    Pruned b (.removeNode id) n.pins.keys (b.removeNode id).board where
  keyed := hb.removeNode id
  own k := by
    rw [KeyMap.mem_keys]
    constructor
    · exact fun hk => ⟨id, rfl, n.pins, by rw [pinsOf?, hn]; rfl, hk⟩
    · rintro ⟨_, rfl, own, hown, hk⟩
      rw [pinsOf?, hn] at hown
      cases hown
      exact hk
  kept x hx := by
    have hne : id ≠ x := hx.1
    have hafter := (huniform.pinsAt x).removeNode hb hn
    rwa [if_neg hne] at hafter
  lost x hx := by
    obtain rfl : id = x := by_contra fun hne => hx ⟨hne, fun h => h⟩
    have hafter := (huniform.pinsAt id).removeNode hb hn
    rwa [if_pos rfl] at hafter
  rims layer pins := by
    rw [(sameRest_removeNode b id).rimOf?]
    exact (and_iff_left fun h => h).symm

/-- A layer is dissolved once its members have been moved out of it or removed. -/
theorem pruned_dissolveLayer {keepNodes : Bool} (hrest : SameRest b b') (hb' : b'.Keyed)
    (own : ∀ k, k ∈ gone ↔ ∃ x, (keepNodes = false ∧ x ∈ b.membersOf id) ∧
      ∃ own, b.pinsOf? x = some own ∧ own.contains k = true)
    (moved : ∀ x ∈ b.membersOf id, keepNodes = true →
      b'.PinsAt x ((b.pinsOf? x).map (·.disconnectFrom gone)) ∧ ¬ b'.OnlyIn id x)
    (removed : ∀ x ∈ b.membersOf id, keepNodes = false → b'.PinsAt x none)
    (others : ∀ x ∉ b.membersOf id, b'.PinsAt x ((b.pinsOf? x).map (·.disconnectFrom gone)))
    (copies : ∀ x ∉ b.membersOf id, ∀ shelf, (b'.copy? shelf x).isSome = (b.copy? shelf x).isSome) (parent : Option String) :
    Pruned b (.removeLayer id keepNodes) gone (b'.dissolveLayer id parent) where
  keyed := hb'.dissolveLayer id parent
  own := own
  kept x hx := by
    by_cases hmem : x ∈ b.membersOf id
    · have hkeep : keepNodes = true := by
        by_contra hne
        exact hx.1 ⟨Bool.eq_false_iff.mpr hne, hmem⟩
      obtain ⟨hpins, honly⟩ := moved x hmem hkeep
      exact hpins.dissolveLayer honly parent
    · exact (others x hmem).dissolveLayer (fun honly => hx.2 ⟨hmem, (onlyIn_congr (copies x hmem)).mp honly⟩) parent
  lost x hx := by
    by_cases hmem : x ∈ b.membersOf id
    · have hkeep : keepNodes = false := by
        by_contra hne
        exact hx ⟨fun h => hne h.1, fun h => h.1 hmem⟩
      refine OnlyIn.pinsAt_dissolveLayer (fun shelf hn => ?_) parent
      obtain ⟨n, hn⟩ := Option.isSome_iff_exists.mp hn
      cases (removed x hmem hkeep).pins shelf n hn
    · have htaken : b.TakesAlong (.removeLayer id keepNodes) x := by
        by_contra hne
        exact hx ⟨fun h => hmem h.2, hne⟩
      exact ((onlyIn_congr (copies x hmem)).mpr htaken.2).pinsAt_dissolveLayer parent
  rims layer pins := by
    rw [rimOf?_dissolveLayer, hrest.rimOf?]
    show _ ↔ _ ∧ ¬ id = layer
    split <;> simp [*]

theorem pruned_removeLayer (hb : b.Keyed) (huniform : b.Uniform) {l : Layer} (hl : b.needLayer id = .ok l) (keepNodes : Bool) :
    ∃ gone, Pruned b (.removeLayer id keepNodes) gone (b.removeLayer id keepNodes).board := by
  cases keepNodes with
  | true =>
    have hpins : ∀ x, (b.assignLayers (b.membersOf id) l.parent).PinsAt x ((b.pinsOf? x).map (·.disconnectFrom [])) := fun x => by
      simp only [KeyMap.disconnectFrom_nil, Option.map_id']
      exact (huniform.pinsAt x).assignLayers hb _ _
    rw [removeLayer_keeping hl]
    refine ⟨[], pruned_dissolveLayer (sameRest_assignLayers b _ l.parent) (hb.assignLayers _ _) (fun k => by simp)
      (fun x hx _ => ⟨hpins x, fun honly => ?_⟩) (fun _ _ => by simp) (fun x _ => hpins x) (fun x hx shelf => ?_) l.parent⟩
    · obtain ⟨n, hn, -⟩ := hb.mem_membersOf.mp hx
      obtain ⟨shelf, hc⟩ := copy?_of_node? hn
      obtain ⟨n', htop, -⟩ := (hb.houses (mem_nodeIds_of_copy? hb hc)).top_of_mem hx l.parent
      cases honly none (by rw [htop]; rfl)
    · rw [hb.copy?_assignLayers_of_notMem hx]
  | false =>
    obtain ⟨gone, hgone, hpins⟩ := hb.pinsAt_removeNodes huniform.pinsAt (b.nodup_membersOf id) fun _ => hb.node?_of_mem_membersOf
    have hlabels : b.Labelled fun key id => id = key := keyed_iff.mp hb
    rw [hb.removeLayer_dropping hl]
    refine ⟨gone, pruned_dissolveLayer (sameRest_removeNodes _ b) (keyed_iff.mpr (hlabels.removeNodes _)) (fun k => ?_)
      (fun _ _ => by simp) (fun x hx _ => ?_) (fun x hx => ?_) (fun x hx => isSome_copy?_removeNodes hx) l.parent⟩
    · rw [hgone]
      simp
    · have hafter := hpins x
      rwa [if_pos hx] at hafter
    · have hafter := hpins x
      rwa [if_neg hx] at hafter

/-! ### Other mutations -/

/-- All pins stay, and there are no connections to other pins than these but those that were there before. -/
structure Follows (b b' : Board) : Prop where
  keyed : b'.Keyed
  pin : ∀ k, (b.pin? k).isSome = true → (b'.pin? k).isSome = true
  mentions : ∀ k, b'.Mentions k → b.Mentions k ∨ (b'.pin? k).isSome = true

theorem Follows.closed (h : Follows b b') (hclosed : b.Closed) : b'.Closed := fun k hk =>
  (h.mentions k hk).elim (fun hk => h.pin k (hclosed k hk)) fun hpin => hpin

theorem Follows.refl (hb : b.Keyed) : Follows b b := ⟨hb, fun _ h => h, fun _ => Or.inl⟩

theorem Follows.trans {b'' : Board} (h : Follows b b') (h' : Follows b' b'') : Follows b b'' where
  keyed := h'.keyed
  pin k hk := h'.pin k (h.pin k hk)
  mentions k hk := by
    rcases h'.mentions k hk with hk | hpin
    · exact (h.mentions k hk).imp_right (h'.pin k)
    · exact Or.inr hpin

theorem Follows.of_sameRest (hb : b.Keyed) (hb' : b'.Keyed) (hrest : SameRest b b')
    (pins : ∀ x n, b.node? x = some n →
      ∃ n', b'.node? x = some n' ∧ ∀ k, n.pins.contains k = true → n'.pins.contains k = true)
    (lists : ∀ shelf x n k, b'.copy? shelf x = some n → n.pins.Lists k → b.Mentions k ∨ (b.pin? k).isSome = true) :
    Follows b b' := by
  have hpin : ∀ k, (b.pin? k).isSome = true → (b'.pin? k).isSome = true := by
    intro k
    rw [hb.pin?_isSome_iff, hb'.pin?_isSome_iff]
    refine Or.imp ?_ ?_
    · rintro ⟨x, own, hown, hk⟩
      obtain ⟨n, hn, rfl⟩ := Option.map_eq_some_iff.mp hown
      obtain ⟨n', hn', hkeeps⟩ := pins x n hn
      exact ⟨x, n'.pins, by rw [pinsOf?, hn']; rfl, hkeeps k hk⟩
    · rintro ⟨layer, own, hown, hk⟩
      exact ⟨layer, own, by rw [hrest.rimOf?, hown], hk⟩
  refine ⟨hb', hpin, fun k hk => ?_⟩
  rcases hk with ⟨shelf, x, n, j, p, hn, hp, hk⟩ | ⟨layer, l', j, p, hl', hp, hk⟩
  · exact (lists shelf x n k hn ⟨j, p, hp, hk⟩).imp_right (hpin k)
  · obtain ⟨l, hl, he⟩ := hrest.layer hl'
    rw [he] at hp
    exact Or.inl (Or.inr ⟨layer, l, j, p, hl, hp, hk⟩)

theorem Follows.of_layers (hb : b.Keyed) (hnodes : b'.nodes = b.nodes) (hlayers : b'.layers = b.layers) : Follows b b' := by
  have hcopy : ∀ shelf x, b'.copy? shelf x = b.copy? shelf x := fun shelf x => by
    unfold copy?
    rw [hnodes, hlayers]
  have hkeyed : b'.Keyed := keyed_iff.mpr fun shelf x n hn => keyed_iff.mp hb shelf x n ((hcopy shelf x).symm.trans hn)
  refine ⟨hkeyed, fun k hk => ?_, fun k hk => ?_⟩
  · unfold pin? allNodes nodeCopies at hk ⊢
    rwa [hnodes, hlayers]
  · unfold Mentions at hk ⊢
    rw [hlayers] at hk
    simp only [hcopy] at hk
    exact Or.inl hk

theorem mentions_of_copy? {shelf : Option String} {n : Node} (hn : b.copy? shelf x = some n) (hk : n.pins.Lists k) :
    b.Mentions k := by
  obtain ⟨j, p, hp, hk⟩ := hk
  exact Or.inl ⟨shelf, x, n, j, p, hn, hp, hk⟩

theorem Keyed.follows_editNode (hb : b.Keyed) (id : String) {f : Node → Node} (hid : ∀ n, (f n).id = n.id)
    (hpins : ∀ n k, (f n).pins.contains k = n.pins.contains k)
    (hlists : ∀ n k, (f n).pins.Lists k → n.pins.Lists k ∨ (b.pin? k).isSome = true) : Follows b (b.editNode id f) := by
  refine .of_sameRest hb (hb.editNode id fun n hn => (hid n).trans hn) (sameRest_editNode b id f) (fun x n hn => ?_)
    fun shelf x n k hn hk => ?_
  · by_cases hx : id = x
    · refine ⟨f n, ?_, fun k => (hpins n k).trans⟩
      rw [(sameRest_editNode b id f).node?_map (g := f) fun shelf => by rw [copy?_editNode, if_pos hx], hn]
      rfl
    · refine ⟨n, ?_, fun _ h => h⟩
      rw [(sameRest_editNode b id f).node?_congr fun shelf => by rw [copy?_editNode, if_neg hx], hn]
  · rw [copy?_editNode] at hn
    split at hn
    · obtain ⟨n₀, hn₀, rfl⟩ := Option.map_eq_some_iff.mp hn
      exact (hlists n₀ k hk).imp_left (mentions_of_copy? hn₀)
    · exact Or.inl (mentions_of_copy? hn hk)

theorem Keyed.follows_editPin (hb : b.Keyed) (id pin : String) {f : Pin → Pin}
    (hf : ∀ p k, (f p).Lists k → p.Lists k ∨ (b.pin? k).isSome = true) : Follows b (b.editNode id (·.editPin pin f)) :=
  hb.follows_editNode id (fun _ => rfl) (fun _ _ => KeyMap.contains_modify) fun _ k => KeyMap.Lists.of_modify fun p => hf p k

theorem Keyed.follows_assignLayer (hb : b.Keyed) (id : String) (layer : Option String) : Follows b (b.assignLayer id layer) := by
  cases hn : b.node? id with
  | none =>
    rw [assignLayer_of_node?_eq_none hn]
    exact .refl hb
  | some n =>
    have hid := hb.id_of_node? hn
    refine .of_sameRest hb (hb.assignLayer id layer) (sameRest_assignLayer b id layer) (fun x m hm => ?_) fun shelf x m k hm hk => ?_
    · by_cases hx : id = x
      · subst hx
        cases hn.symm.trans hm
        have htop := copy?_assignLayer_none hn hid layer id
        rw [if_pos rfl] at htop
        exact ⟨_, node?_of_copy?_none htop, fun _ h => h⟩
      · refine ⟨m, ?_, fun _ h => h⟩
        rw [node?_assignLayer_of_ne hx (fun n' hn' e => hx ((hb.id_of_node? hn').symm.trans e)), hm]
    · rcases copy?_assignLayer_cases hn hm with ⟨hm, -⟩ | ⟨-, rfl⟩
      · exact Or.inl (mentions_of_copy? hm hk)
      · obtain ⟨shelf', hc⟩ := copy?_of_node? hn
        exact Or.inl (mentions_of_copy? hc hk)

theorem Keyed.follows_assignLayers (hb : b.Keyed) (ids : List String) (layer : Option String) :
    Follows b (b.assignLayers ids layer) :=
  board_assignLayers (Follows.refl hb) (fun _ id h => h.trans (h.keyed.follows_assignLayer id layer)) ids

/-- A new node has no connections. -/
theorem Keyed.follows_instantiate (hb : b.Keyed) (template : Node) (layer : Option String) (order : List String) :
    Follows b (b.storeNode (b.instantiate template layer order)) := by
  have hfresh : ∀ shelf, b.copy? shelf (b.instantiate template layer order).id = none := hb.copy?_freshId "node"
  refine .of_sameRest hb (hb.storeNode _) (sameRest_storeNode b _) (fun x n hn => ⟨n, ?_, fun _ h => h⟩) fun shelf x n k hn hk => ?_
  · have hx : (b.instantiate template layer order).id ≠ x := by
      rintro rfl
      obtain ⟨shelf, hc⟩ := copy?_of_node? hn
      rw [hfresh] at hc
      cases hc
    rw [(sameRest_storeNode b _).node?_congr (copy?_storeNode_of_ne hx), hn]
  · rcases copy?_storeNode_cases hn with hn | ⟨-, rfl⟩
    · exact Or.inl (mentions_of_copy? hn hk)
    · obtain ⟨j, p, hp, hk⟩ := hk
      obtain ⟨q, hq, he⟩ := List.mem_map.mp (KeyMap.mem_of_get?_ofList hp)
      obtain ⟨-, rfl⟩ := Prod.mk.inj he
      obtain ⟨-, hout, hin⟩ := mem_renewPins hq
      rw [Pin.Lists, hout, hin] at hk
      rcases hk with hk | hk <;> cases hk

/-- The pins that are to be connected are on the board. -/
theorem Keyed.pins_of_needEnds (hb : b.Keyed) {w : Wire} {u : Unit} (hu : b.needEnds w = .ok u) :
    (b.pin? w.fromPin).isSome = true ∧ (b.pin? w.toPin).isSome = true := by
  have hpin : ∀ {x n k p}, b.needNode x = .ok n → needPin n x k = .ok p → (b.pin? k).isSome = true := by
    intro x n k p hn hp
    refine hb.pin?_isSome_iff.mpr (Or.inl ⟨x, n.pins, by rw [pinsOf?, needNode_eq_ok.mp hn]; rfl, ?_⟩)
    unfold needPin at hp
    split at hp
    · rename_i hget
      exact KeyMap.contains_iff.mpr ⟨_, hget⟩
    · cases hp
  unfold needEnds at hu
  obtain ⟨source, hsource, hu⟩ := bind_eq_ok hu
  obtain ⟨target, htarget, hu⟩ := bind_eq_ok hu
  obtain ⟨p, hp, hu⟩ := bind_eq_ok hu
  obtain ⟨q, hq, -⟩ := bind_eq_ok hu
  exact ⟨hpin hsource hp, hpin htarget hq⟩

/-- Both ends of a connection are changed, and each lists at most the other in addition. -/
theorem Keyed.follows_editEnds (hb : b.Keyed) {w : Wire} {u : Unit} (hu : b.needEnds w = .ok u) {f g : Pin → Pin}
    (hf : ∀ p k, (f p).Lists k → p.Lists k ∨ k = w.toPin) (hg : ∀ p k, (g p).Lists k → p.Lists k ∨ k = w.fromPin) :
    Follows b ((b.editNode w.fromNode (·.editPin w.fromPin f)).editNode w.toNode (·.editPin w.toPin g)) := by
  obtain ⟨hfrom, hto⟩ := hb.pins_of_needEnds hu
  have hfirst := hb.follows_editPin w.fromNode w.fromPin (f := f) fun p k hk => (hf p k hk).imp_right (by rintro rfl; exact hto)
  refine hfirst.trans (hfirst.keyed.follows_editPin w.toNode w.toPin fun p k hk => ?_)
  exact (hg p k hk).imp_right (by rintro rfl; exact hfirst.pin _ hfrom)

/-- A mutation that brings no pins with connections and takes none off the board. -/
theorem Keyed.follows_perform (hb : b.Keyed) (hm : m.bringsWhole = false) (hremoves : m.removesPins = false) :
    Follows b (b.perform m).board := by
  have hmoved : ∀ id goal, Follows b (b.editNode id fun n => { n with place := goal }) := fun id goal =>
    hb.follows_editNode id (fun _ => rfl) (fun _ _ => rfl) fun _ _ => Or.inl
  refine board_perform fun b' hb' => ?_
  cases hb' with
  | refused => exact .refl hb
  | addNode => exact hb.follows_instantiate _ _ _
  | connect hends =>
    refine hb.follows_editEnds hends (fun p k hk => ?_) fun p k hk => ?_
    · simp only [Pin.Lists, KeySet.contains_insert, Bool.or_eq_true, decide_eq_true_eq] at hk ⊢
      tauto
    · simp only [Pin.Lists, KeySet.contains_insert, Bool.or_eq_true, decide_eq_true_eq] at hk ⊢
      tauto
  | disconnect hends =>
    refine hb.follows_editEnds hends (fun p k hk => ?_) fun p k hk => ?_
    · simp only [Pin.Lists, KeySet.contains_erase, Bool.and_eq_true] at hk ⊢
      tauto
    · simp only [Pin.Lists, KeySet.contains_erase, Bool.and_eq_true] at hk ⊢
      tauto
  | moveNode => exact hmoved _ _
  | moveInto => exact (hmoved _ _).trans ((hmoved _ _).keyed.follows_assignLayer _ _)
  | upsertVariable | removeVariable | upsertComment | removeComment => exact .of_layers hb rfl rfl
  | addToLayer | removeFromLayer => exact hb.follows_assignLayers _ _
  | updateNode | upsertLayer => cases hm
  | removeNode | removeLayer | removeWhole | removePart => cases hremoves

/-- Where no pin goes, none is missed. -/
theorem Closed.not_leftOver (h : b.Closed) (hb : b.Keyed) (hremoves : m.removesPins = false) : ¬ b.LeftOver m k := by
  obtain ⟨hstays, hdissolves⟩ : (∀ x, b.Stays m x) ∧ ∀ layer, ¬ m.Dissolves layer := by
    cases m
    case removeNode => cases hremoves
    case removeLayer => cases hremoves
    all_goals exact ⟨fun _ => ⟨fun h => h, fun h => h⟩, fun _ h => h⟩
  rintro ⟨hconnection, hpin⟩
  have hk : b.Mentions k := by
    rcases hconnection with ⟨x, pins, hpins, -, hk, -⟩ | ⟨layer, pins, hpins, -, j, p, hp, hk⟩
    · obtain ⟨n, hn, rfl⟩ := Option.map_eq_some_iff.mp hpins
      obtain ⟨shelf, hc⟩ := copy?_of_node? hn
      exact mentions_of_copy? hc hk
    · obtain ⟨l, hl, rfl⟩ := Option.map_eq_some_iff.mp hpins
      exact Or.inr ⟨layer, l, j, p, hl, hp, hk⟩
  refine hpin ((hb.pin?_isSome_iff.mp (h k hk)).imp ?_ ?_)
  · rintro ⟨x, pins, hpins, hk⟩
    exact ⟨x, pins, hpins, hstays x, hk⟩
  · rintro ⟨layer, pins, hpins, hk⟩
    exact ⟨layer, pins, hpins, hdissolves layer, hk⟩

/-! ### What is closed afterwards -/

/-- A mutation that is carried out and brings no whole node or layer leaves a closed board closed just if there is no connection
that stays while its pin goes. -/
theorem execute_closed_iff (hb : b.Keyed) (hclosed : b.Closed) (hm : m.bringsWhole = false)
    (huniform : m.removesPins = true → b.Uniform) (hr : (b.execute m).result = .ok r) :
    (b.execute m).board.Closed ↔ ∀ k, ¬ b.LeftOver m k := by
  obtain ⟨hok, hboard⟩ := execute_of_ok hr
  rw [hboard]
  show (b.perform m).board.Closed ↔ _
  cases hremoves : m.removesPins with
  | false => exact iff_of_true ((hb.follows_perform hm hremoves).closed hclosed) fun k => hclosed.not_leftOver hb hremoves
  | true =>
    cases m with
    | removeNode id =>
      obtain ⟨n, hn, -⟩ := Effect.given_of_ok hok
      exact (pruned_removeNode hb (huniform rfl) (needNode_eq_ok.mp hn)).closed_iff
    | removeLayer id keepNodes =>
      obtain ⟨l, hl, -⟩ := Effect.given_of_ok hok
      obtain ⟨gone, hpruned⟩ := pruned_removeLayer hb (huniform rfl) hl keepNodes
      exact hpruned.closed_iff
    | _ => cases hremoves

/-- A layer is removed to whose boundary a node is connected: the node keeps the connection. -/
theorem boundary_left_over :
    let rim : Pin := { Placeholder.plainPin "rim" "Rim" "" .input .execution .single with connectedTo := .ofList ["in"] }
    let inlet : Pin := { Placeholder.plainPin "in" "In" "" .input .execution .single with dependsOn := .ofList ["rim"] }
    let n : Node := ⟨"n", "log", "Log", "", "", none, .ofList [("in", inlet)], .origin, none⟩
    let b := { blank "b" "board" with
      nodes := .ofList [("n", n)]
      layers := .ofList [("l", ⟨"l", "Group", none, none, ∅, .ofList [("rim", rim)], .origin, none⟩)] }
    let m : Mutation := .removeLayer "l" true
    b.Keyed ∧ b.Closed ∧ b.Uniform ∧ (∃ r, (b.execute m).result = .ok r) ∧ (∃ k, b.LeftOver m k) ∧
    ((b.execute m).board.pin? "in").map (·.dependsOn.toList) = some ["rim"] ∧ (b.execute m).board.pin? "rim" = none := by
  intro rim inlet n b m
  have hkeyed : b.Keyed := by decide
  have hclosed : b.Closed := by decide
  have huniform : b.Uniform := by
    rintro (_ | layer) x m n hm hn
    · cases (node?_of_copy?_none hm).symm.trans hn
      rfl
    · obtain ⟨l, hl, hm⟩ := copy?_some_eq_some.mp hm
      obtain ⟨-, rfl⟩ := Prod.mk.inj (List.mem_singleton.mp (KeyMap.mem_of_get?_ofList hl))
      cases hm
  have hopen : ¬ (b.execute m).board.Closed := by decide
  rw [execute_closed_iff hkeyed hclosed rfl (fun _ => huniform) (r := .removed "l") rfl] at hopen
  push Not at hopen
  exact ⟨hkeyed, hclosed, huniform, ⟨.removed "l", rfl⟩, hopen, by decide, by decide⟩

end Board

end Workboard
