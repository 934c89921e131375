import Workboard.Proofs.Refusal

/-! The numbers on a board: coordinates, and the sizes of comments.

`Board.Within P` says that all of them satisfy `P` (`Board.within_iff`). A mutation puts no numbers on a board
but its own (`Board.Within.execute`). -/

namespace Workboard

/-! ### What is on a board -/

def Place.numbers (p : Place) : List Float32 := [p.x, p.y, p.z]

def Place.Within (P : Float32 → Prop) (p : Place) : Prop := P p.x ∧ P p.y ∧ P p.z

def Comment.sizes (c : Comment) : List Float32 := c.width.toList ++ c.height.toList

structure Comment.Within (P : Float32 → Prop) (c : Comment) : Prop where
  place : c.place.Within P
  sizes : ∀ x ∈ c.sizes, P x

/-- Where a layer is, and the nodes in it. -/
def Layer.places (l : Layer) : List Place := l.place :: l.nodes.values.map (·.place)

variable {P : Float32 → Prop} {b b' : Board}

theorem Place.within_iff {p : Place} : p.Within P ↔ ∀ x ∈ p.numbers, P x := by simp [Within, numbers]

namespace Board

/-- Where nodes, layers and comments are. -/
def places (b : Board) : List Place :=
  b.nodes.values.map (·.place) ++ b.layers.values.flatMap Layer.places ++ b.comments.values.map (·.place)

def numbers (b : Board) : List Float32 := b.places.flatMap Place.numbers ++ b.comments.values.flatMap Comment.sizes

structure Within (P : Float32 → Prop) (b : Board) : Prop where
  nodes : ∀ shelf id n, b.copy? shelf id = some n → n.place.Within P
  layers : ∀ id l, b.layers.get? id = some l → l.place.Within P
  comments : ∀ id c, b.comments.get? id = some c → c.Within P

theorem Within.node (h : b.Within P) {id : String} {n : Node} (hn : b.node? id = some n) : n.place.Within P := by
  obtain ⟨shelf, hn⟩ := copy?_of_node? hn
  exact h.nodes shelf id n hn

/-! ### Places -/

theorem mem_places {p : Place} :
    p ∈ b.places ↔ (∃ shelf k n, b.copy? shelf k = some n ∧ n.place = p) ∨
      (∃ k l, b.layers.get? k = some l ∧ l.place = p) ∨ ∃ k c, b.comments.get? k = some c ∧ c.place = p := by
  simp only [places, Layer.places, List.mem_append, List.mem_flatMap, KeyMap.mem_values, List.mem_cons, List.mem_map]
  constructor
  · rintro ((⟨n, ⟨k, hn⟩, rfl⟩ | ⟨l, ⟨k, hl⟩, rfl | ⟨n, ⟨x, hn⟩, rfl⟩⟩) | ⟨c, ⟨k, hc⟩, rfl⟩)
    · exact Or.inl ⟨none, k, n, hn, rfl⟩
    · exact Or.inr (Or.inl ⟨k, l, hl, rfl⟩)
    · exact Or.inl ⟨some k, x, n, copy?_some_eq_some.mpr ⟨l, hl, hn⟩, rfl⟩
    · exact Or.inr (Or.inr ⟨k, c, hc, rfl⟩)
  · rintro (⟨_ | layer, k, n, hn, rfl⟩ | ⟨k, l, hl, rfl⟩ | ⟨k, c, hc, rfl⟩)
    · exact Or.inl (Or.inl ⟨n, ⟨k, hn⟩, rfl⟩)
    · obtain ⟨l, hl, hn⟩ := copy?_some_eq_some.mp hn
      exact Or.inl (Or.inr ⟨l, ⟨layer, hl⟩, Or.inr ⟨n, ⟨k, hn⟩, rfl⟩⟩)
    · exact Or.inl (Or.inr ⟨l, ⟨k, hl⟩, Or.inl rfl⟩)
    · exact Or.inr ⟨c, ⟨k, hc⟩, rfl⟩

theorem within_iff : b.Within P ↔ ∀ x ∈ b.numbers, P x := by
  have hplaces : (∀ x ∈ b.places.flatMap Place.numbers, P x) ↔ ∀ p ∈ b.places, p.Within P := by
    simp only [List.mem_flatMap, Place.within_iff]
    exact ⟨fun h p hp x hx => h x ⟨p, hp, hx⟩, fun h x ⟨p, hp, hx⟩ => h p hp x hx⟩
  have hsizes : (∀ x ∈ b.comments.values.flatMap Comment.sizes, P x) ↔
      ∀ k c, b.comments.get? k = some c → ∀ x ∈ c.sizes, P x := by
    simp only [List.mem_flatMap, KeyMap.mem_values]
    exact ⟨fun h k c hc x hx => h x ⟨c, ⟨k, hc⟩, hx⟩, fun h x ⟨c, ⟨k, hc⟩, hx⟩ => h k c hc x hx⟩
  rw [numbers, List.forall_mem_append, hplaces, hsizes]
  constructor
  · rintro ⟨hnodes, hlayers, hcomments⟩
    refine ⟨fun p hp => ?_, fun k c hc => (hcomments k c hc).sizes⟩
    rcases mem_places.mp hp with ⟨shelf, k, n, hn, rfl⟩ | ⟨k, l, hl, rfl⟩ | ⟨k, c, hc, rfl⟩
    · exact hnodes shelf k n hn
    · exact hlayers k l hl
    · exact (hcomments k c hc).place
  · rintro ⟨hplaces, hsizes⟩
    exact ⟨fun shelf k n hn => hplaces _ (mem_places.mpr (Or.inl ⟨shelf, k, n, hn, rfl⟩)),
      fun k l hl => hplaces _ (mem_places.mpr (Or.inr (Or.inl ⟨k, l, hl, rfl⟩))),
      fun k c hc => ⟨hplaces _ (mem_places.mpr (Or.inr (Or.inr ⟨k, c, hc, rfl⟩))), hsizes k c hc⟩⟩

/-! ### Elementary changes -/

/-- Layers and comments are as before, and the copies of nodes are in order. -/
theorem Within.of_sameRest (h : b.Within P) (hr : SameRest b b')
    (hnodes : ∀ shelf id n, b'.copy? shelf id = some n → n.place.Within P) : b'.Within P where
  nodes := hnodes
  layers id l' hl' := by
    obtain ⟨l, hl, he⟩ := hr.layer hl'
    rw [he]
    exact h.layers id l hl
  comments id c hc := by
    rw [hr.comments] at hc
    exact h.comments id c hc

theorem Within.editNode (h : b.Within P) (id : String) {f : Node → Node}
    (hf : ∀ n, n.place.Within P → (f n).place.Within P) : (b.editNode id f).Within P := by
  refine h.of_sameRest (sameRest_editNode b id f) fun shelf j n hn => ?_
  rw [copy?_editNode] at hn
  split at hn
  · obtain ⟨m, hm, rfl⟩ := Option.map_eq_some_iff.mp hn
    exact hf m (h.nodes shelf j m hm)
  · exact h.nodes shelf j n hn

theorem Within.editNodes (h : b.Within P) (ids : List String) {f : Node → Node}
    (hf : ∀ n, n.place.Within P → (f n).place.Within P) : (b.editNodes ids f).Within P :=
  board_editNodes (P := Within P) h (fun _ id h => h.editNode id hf) ids

theorem Within.dropNode (h : b.Within P) (id : String) : (b.dropNode id).Within P := by
  refine h.of_sameRest (sameRest_dropNode b id) fun shelf j n hn => ?_
  rw [copy?_dropNode] at hn
  split at hn
  · cases hn
  · exact h.nodes shelf j n hn

theorem Within.storeNode (h : b.Within P) {n : Node} (hn : n.place.Within P) : (b.storeNode n).Within P := by
  refine h.of_sameRest (sameRest_storeNode b n) fun shelf j m hm => ?_
  rcases copy?_storeNode_cases hm with hm | ⟨-, rfl⟩
  · exact h.nodes shelf j m hm
  · exact hn

theorem Within.assignLayer (h : b.Within P) (id : String) (layer : Option String) : (b.assignLayer id layer).Within P := by
  cases hn : b.node? id with
  | none =>
    rw [assignLayer_of_node?_eq_none hn]
    exact h
  | some n =>
    have hplace := h.node hn
    refine h.of_sameRest (sameRest_assignLayer b id layer) fun shelf j m hm => ?_
    rcases copy?_assignLayer_cases hn hm with ⟨hm, -⟩ | ⟨-, rfl⟩
    · exact h.nodes shelf j m hm
    · exact hplace

theorem Within.assignLayers (h : b.Within P) (ids : List String) (layer : Option String) :
    (b.assignLayers ids layer).Within P :=
  board_assignLayers (P := Within P) h (fun _ id h => h.assignLayer id layer) ids

theorem Within.setComments (h : b.Within P) {comments : KeyMap Comment}
    (hc : ∀ id c, comments.get? id = some c → c.Within P) : ({ b with comments } : Board).Within P :=
  ⟨h.nodes, h.layers, hc⟩

/-! ### Layers -/

theorem place_storedLayer (b : Board) (l : Layer) : (b.storedLayer l).place = l.place := by
  have hnamed : (b.namedLayer l).place = l.place := by unfold namedLayer; split <;> rfl
  unfold storedLayer
  split
  · exact hnamed
  · exact hnamed

theorem Within.storeLayer (h : b.Within P) {l : Layer} (hl : l.place.Within P) (hnodes : l.nodes = ∅) :
    (b.storeLayer l).Within P where
  nodes shelf id n hn := by
    cases shelf with
    | none => exact h.nodes none id n hn
    | some layer =>
      rw [copy?_storeLayer_some] at hn
      split at hn
      · rw [nodes_storedLayer] at hn
        split at hn
        · rename_i existing he
          exact h.nodes _ id n (copy?_some_eq_some.mpr ⟨existing, he, hn⟩)
        · rw [hnodes] at hn
          cases hn
      · exact h.nodes _ id n hn
  layers id l' hl' := by
    simp only [Board.storeLayer, KeyMap.get?_insert] at hl'
    split at hl'
    · cases hl'
      rw [place_storedLayer]
      exact hl
    · exact h.layers id l' hl'
  comments := h.comments

theorem Within.dissolveLayer (h : b.Within P) (id : String) (parent : Option String) :
    (b.dissolveLayer id parent).Within P where
  nodes shelf j n hn := by
    cases shelf with
    | none => exact h.nodes none j n hn
    | some layer =>
      rw [copy?_dissolveLayer_some] at hn
      split at hn
      · cases hn
      · exact h.nodes _ j n hn
  layers layer l' hl' := by
    simp only [Board.dissolveLayer, KeyMap.get?_erase, KeyMap.get?_mapValues] at hl'
    split at hl'
    · cases hl'
    · obtain ⟨l, hl, rfl⟩ := Option.map_eq_some_iff.mp hl'
      have hplace := h.layers layer l hl
      split <;> exact hplace
  comments k c' hc' := by
    simp only [Board.dissolveLayer, KeyMap.get?_mapValues] at hc'
    obtain ⟨c, hc, rfl⟩ := Option.map_eq_some_iff.mp hc'
    have hplace := h.comments k c hc
    split
    · exact ⟨hplace.place, hplace.sizes⟩
    · exact hplace

/-! ### Mutations -/

theorem Within.removeNode (h : b.Within P) (id : String) : (b.removeNode id).board.Within P :=
  Effect.board_given h fun n _ =>
    (h.dropNode id).editNodes ((b.dropNode id).neighbours n.pins.keys) fun _ hn => hn

theorem Within.removeNodes (h : b.Within P) (ids : List String) : (b.removeNodes ids).1.Within P :=
  board_removeNodes (P := Within P) h fun _ id _ h => h.removeNode id

theorem Within.putComment (h : b.Within P) {c : Comment} (hc : c.Within P) :
    ({ b with comments := b.comments.insert c.id c } : Board).Within P := by
  refine h.setComments fun id d hd => ?_
  rw [KeyMap.get?_insert] at hd
  split at hd
  · cases hd
    exact hc
  · exact h.comments id d hd

theorem Comment.Within.stored {c : Comment} (hc : c.Within P) (b : Board) (layer : Option String) :
    (b.storedComment c layer).Within P := by
  unfold storedComment
  split <;> dsimp only <;> split <;> exact ⟨hc.place, hc.sizes⟩

theorem Within.eraseComment (h : b.Within P) (id : String) : ({ b with comments := b.comments.erase id } : Board).Within P := by
  refine h.setComments fun k c hc => ?_
  rw [KeyMap.get?_erase] at hc
  split at hc
  · cases hc
  · exact h.comments k c hc

end Board

/-- The numbers that a mutation has with it satisfy `P`. A layer comes without copies. -/
def Mutation.Within (P : Float32 → Prop) : Mutation → Prop
  | addNode node .. => node.place.Within P
  | updateNode _ node => node.place.Within P
  | moveNode _ _ goal _ => goal.Within P
  | upsertComment c _ _ => c.Within P
  | upsertLayer l _ => l.place.Within P ∧ l.nodes = ∅
  | _ => True

namespace Board

theorem Within.perform (h : b.Within P) {m : Mutation} (hm : m.Within P) : (b.perform m).board.Within P := by
  have ends : ∀ (w : Wire) f g,
      ((b.editNode w.fromNode (·.editPin w.fromPin f)).editNode w.toNode (·.editPin w.toPin g)).Within P :=
    fun w f g => by
      refine (h.editNode _ fun n hn => ?_).editNode _ fun n hn => ?_
      · exact hn
      · exact hn
  have hmoved : ∀ id {goal : Place}, goal.Within P → (b.editNode id fun n => { n with place := goal }).Within P :=
    fun id _ hgoal => h.editNode id fun _ _ => hgoal
  refine board_perform (P := Within P) fun b' hb' => ?_
  cases hb' with
  | refused => exact h
  | addNode => exact h.storeNode hm
  | removeNode => exact h.removeNode _
  | connect | disconnect => exact ends _ _ _
  | updateNode => exact h.editNode _ fun _ _ => hm
  | moveNode => exact hmoved _ hm
  | moveInto => exact (hmoved _ hm).assignLayer _ _
  | upsertVariable | removeVariable => exact ⟨h.nodes, h.layers, h.comments⟩
  | upsertComment => exact h.putComment (Comment.Within.stored hm b _)
  | removeComment => exact h.eraseComment _
  | upsertLayer => exact (h.storeLayer hm.1 hm.2).assignLayers _ _
  | addToLayer | removeFromLayer => exact h.assignLayers _ _
  | removeLayer => exact (h.assignLayers _ _).dissolveLayer _ _
  | removeWhole => exact (h.removeNodes _).dissolveLayer _ _
  | removePart => exact h.removeNodes _

theorem Within.countChange (h : b.Within P) : b.countChange.Within P := ⟨h.nodes, h.layers, h.comments⟩

/-- A mutation brings no numbers but its own. -/
theorem Within.execute (h : b.Within P) {m : Mutation} (hm : m.Within P) : (b.execute m).board.Within P :=
  board_execute (P := Within P) (h.perform hm) fun _ h => h.countChange

end Board

end Workboard
