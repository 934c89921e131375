import Workboard.Proofs.Refusal

/-! No node is lost.

A mutation that is not meant to remove nodes keeps the id of every node on a keyed board, wherever its
copies are. Two things can go wrong. A removed layer takes a node along that has no copy elsewhere and
that another layer, or none, owns (`Stranded`). A new layer can bring a copy of another node under the id
of a member, and this copy can be the first that is found there (`Misfiled`); the member is then taken for
that node. -/

namespace Workboard

/-- Whether a mutation is meant to remove nodes. -/
def Mutation.removesNodes : Mutation → Bool
  | .removeNode _ => true
  | .removeLayer _ keepNodes => !keepNodes
  | _ => false

/-- A mutation brings a copy of a node along. -/
def Mutation.Supplies (m : Mutation) (x : String) : Prop :=
  match m with
  | .upsertLayer layer _ => ∃ id n, layer.nodes.get? id = some n ∧ n.id = x
  | _ => False

namespace Board

variable {b b' : Board} {x : String}

/-- The only copy of a node is in a layer that is dissolved, and the node does not say it is in there. -/
def Stranded (b : Board) (m : Mutation) (x : String) : Prop :=
  match m with
  | .removeLayer layer true => ∀ shelf n, b.copy? shelf x = some n → shelf = some layer ∧ n.layer ≠ some layer
  | _ => False

/-- With the copies that a new layer brings, the first one under the id of a member is that of another node. -/
def Misfiled (b : Board) (m : Mutation) (x : String) : Prop :=
  match m with
  | .upsertLayer layer members => x ∈ members ∧ ∃ n, (b.storeLayer layer).node? x = some n ∧ n.id ≠ x
  | _ => False

/-! ### Nodes that stay under their id -/

/-- Under an id there is a copy of the node of this id. -/
def Named (b : Board) (x : String) : Prop := ∃ shelf n, b.copy? shelf x = some n ∧ n.id = x

theorem Named.mem_nodeIds (h : b.Named x) : x ∈ b.nodeIds := by
  obtain ⟨shelf, n, hn, hx⟩ := h
  exact Board.mem_nodeIds.mpr ⟨shelf, x, n, hn, hx⟩

theorem Named.of_copy?_eq (h : b.Named x) (he : ∀ shelf, b'.copy? shelf x = b.copy? shelf x) : b'.Named x := by
  obtain ⟨shelf, n, hn, hx⟩ := h
  exact ⟨shelf, n, (he shelf).trans hn, hx⟩

theorem named_storeNode_self {n : Node} (hn : n.id = x) : (b.storeNode n).Named x :=
  ⟨none, n, by rw [copy?_storeNode_none, if_pos hn], hn⟩

theorem Named.storeNode (h : b.Named x) (n : Node) : (b.storeNode n).Named x := by
  by_cases hn : n.id = x
  · exact named_storeNode_self hn
  · exact h.of_copy?_eq (copy?_storeNode_of_ne hn)

/-- Assigning what is stored under another id takes no copy from under this one. -/
theorem Named.assignLayer_of_ne (h : b.Named x) {id : String} (hid : id ≠ x) (layer : Option String) :
    (b.assignLayer id layer).Named x := by
  unfold Board.assignLayer
  split
  · exact Named.storeNode (h.of_copy?_eq (copy?_unmirror_of_ne hid)) _
  · exact h

theorem Named.assignLayers_of_notMem (h : b.Named x) {ids : List String} (hx : x ∉ ids) (layer : Option String) :
    (b.assignLayers ids layer).Named x := by
  unfold Board.assignLayers
  induction ids generalizing b with
  | nil => exact h
  | cons id ids ih =>
    obtain ⟨hne, hx⟩ := not_or.mp (List.mem_cons.not.mp hx)
    exact ih (h.assignLayer_of_ne (Ne.symm hne) layer) hx

/-- A node at board level stays there. -/
theorem top_assignLayers (h : ∃ n, b.copy? none x = some n ∧ n.id = x) (ids : List String) (layer : Option String) :
    ∃ n, (b.assignLayers ids layer).copy? none x = some n ∧ n.id = x := by
  unfold Board.assignLayers
  induction ids generalizing b with
  | nil => exact h
  | cons id ids ih =>
    obtain ⟨n, hn, hx⟩ := h
    refine ih ?_
    show ∃ n, (b.assignLayer id layer).copy? none x = some n ∧ n.id = x
    unfold Board.assignLayer
    split
    · rename_i m hm
      by_cases hmx : ({ m with layer } : Node).id = x
      · exact ⟨{ m with layer }, by rw [copy?_storeNode_none, if_pos hmx], hmx⟩
      · exact ⟨n, by rw [copy?_storeNode_none, if_neg hmx]; exact hn, hx⟩
    · exact ⟨n, hn, hx⟩

/-- Under an id there are copies of the node of this id, and of no other. -/
structure Houses (b : Board) (x : String) : Prop where
  found : b.Named x
  only : ∀ shelf n, b.copy? shelf x = some n → n.id = x

theorem Keyed.houses (hb : b.Keyed) (hx : x ∈ b.nodeIds) : b.Houses x := by
  have hnamed : ∀ shelf n, b.copy? shelf x = some n → n.id = x := fun shelf n h => keyed_iff.mp hb shelf x n h
  obtain ⟨shelf, n, hn⟩ := hb.mem_nodeIds_iff.mp hx
  exact ⟨⟨shelf, n, hn, hnamed shelf n hn⟩, hnamed⟩

theorem Houses.mem_nodeIds (h : b.Houses x) : x ∈ b.nodeIds := h.found.mem_nodeIds

theorem Houses.of_copy?_eq (h : b.Houses x) (he : ∀ shelf, b'.copy? shelf x = b.copy? shelf x) : b'.Houses x :=
  ⟨h.found.of_copy?_eq he, fun shelf n hn => h.only shelf n ((he shelf).symm.trans hn)⟩

theorem Houses.editNode (h : b.Houses x) (id : String) {f : Node → Node} (hf : ∀ n, n.id = id → (f n).id = id) :
    (b.editNode id f).Houses x := by
  by_cases hid : id = x
  · subst hid
    obtain ⟨shelf, n, hn, hx⟩ := h.found
    refine ⟨⟨shelf, f n, by rw [copy?_editNode, if_pos rfl, hn]; rfl, hf n hx⟩, fun shelf m hm => ?_⟩
    rw [copy?_editNode, if_pos rfl] at hm
    obtain ⟨m', hm', rfl⟩ := Option.map_eq_some_iff.mp hm
    exact hf m' (h.only shelf m' hm')
  · exact h.of_copy?_eq fun shelf => by rw [copy?_editNode, if_neg hid]

/-- Whatever is stored, it is stored under its id. -/
theorem Houses.storeNode (h : b.Houses x) (n : Node) : (b.storeNode n).Houses x := by
  refine ⟨h.found.storeNode n, fun shelf m hm => ?_⟩
  by_cases hn : n.id = x
  · cases shelf with
    | none =>
      rw [copy?_storeNode_none, if_pos hn] at hm
      cases hm
      exact hn
    | some layer =>
      rw [copy?_storeNode_some] at hm
      split at hm
      · cases hm
        exact hn
      · exact h.only (some layer) m hm
  · rw [copy?_storeNode_of_ne hn] at hm
    exact h.only shelf m hm

theorem Houses.assignLayer (h : b.Houses x) (id : String) (layer : Option String) : (b.assignLayer id layer).Houses x := by
  cases hn : b.node? id with
  | none =>
    rw [assignLayer_of_node?_eq_none hn]
    exact h
  | some n =>
    by_cases hid : id = x
    · -- The node itself: its counting copy goes to board level, and a copy to its new layer.
      subst hid
      obtain ⟨shelf, hc⟩ := copy?_of_node? hn
      have hname := h.only shelf n hc
      have htop := copy?_assignLayer_none hn hname layer id
      rw [if_pos rfl] at htop
      refine ⟨⟨none, { n with layer }, htop, hname⟩, fun shelf m hm => ?_⟩
      cases shelf with
      | none =>
        rw [htop] at hm
        cases hm
        exact hname
      | some own =>
        rw [copy?_assignLayer_some hn hname, if_pos rfl] at hm
        split at hm
        · cases hm
          exact hname
        · cases hm
    · unfold Board.assignLayer
      rw [hn]
      exact (h.of_copy?_eq (copy?_unmirror_of_ne hid)).storeNode _

theorem Houses.assignLayers (h : b.Houses x) (ids : List String) (layer : Option String) :
    (b.assignLayers ids layer).Houses x :=
  board_assignLayers (P := (Board.Houses · x)) h (fun _ id h => h.assignLayer id layer) ids

/-! ### Layers that come and go -/

theorem Named.storeLayer (h : b.Named x) (l : Layer) :
    (b.storeLayer l).Named x := by
  obtain ⟨shelf, n, hn, hx⟩ := h
  refine ⟨shelf, n, ?_, hx⟩
  cases shelf with
  | none => exact hn
  | some layer =>
    rw [copy?_storeLayer_some]
    split
    · rename_i hl
      obtain ⟨existing, he, hn⟩ := copy?_some_eq_some.mp hn
      rw [nodes_storedLayer, hl, he]
      exact hn
    · exact hn

/-- The first copy under an id is that of the node of this id. -/
def Leads (b : Board) (x : String) : Prop := ∃ n, b.node? x = some n ∧ n.id = x

theorem Leads.named (h : b.Leads x) : b.Named x := by
  obtain ⟨n, hn, hx⟩ := h
  obtain ⟨shelf, hc⟩ := copy?_of_node? hn
  exact ⟨shelf, n, hc, hx⟩

/-- A node that is found first stays the first under its id, whichever nodes are assigned. -/
theorem Leads.assignLayer (h : b.Leads x) (id : String) (layer : Option String) : (b.assignLayer id layer).Leads x := by
  obtain ⟨m, hm, hx⟩ := h
  cases hn : b.node? id with
  | none =>
    rw [assignLayer_of_node?_eq_none hn]
    exact ⟨m, hm, hx⟩
  | some n =>
    by_cases hnx : n.id = x
    · refine ⟨{ n with layer }, node?_of_copy?_none ?_, hnx⟩
      unfold Board.assignLayer
      rw [hn, copy?_storeNode_none]
      exact if_pos hnx
    · have hid : id ≠ x := by
        rintro rfl
        rw [hm] at hn
        cases hn
        exact hnx hx
      exact ⟨m, (node?_assignLayer_of_ne hid (fun n' hn' => by rw [hn] at hn'; cases hn'; exact hnx) layer).trans hm, hx⟩

theorem Leads.assignLayers (h : b.Leads x) (ids : List String) (layer : Option String) :
    (b.assignLayers ids layer).Leads x :=
  board_assignLayers (P := (Board.Leads · x)) h (fun _ id h => h.assignLayer id layer) ids

/-- A node has copies in layers only, each under its id, and the first copy there is that of another node. -/
structure Astray (b : Board) (x : String) : Prop where
  filed : ∀ shelf id n, b.copy? shelf id = some n → n.id = x → id = x
  top : b.copy? none x = none
  first : ∃ n, b.node? x = some n ∧ n.id ≠ x

/-- What an id stands for is another node if it is another id. -/
theorem Astray.id_ne (h : b.Astray x) {id : String} {n : Node} (hn : b.node? id = some n) (hid : id ≠ x) : n.id ≠ x := by
  obtain ⟨shelf, hc⟩ := copy?_of_node? hn
  exact fun hx => hid (h.filed shelf id n hc hx)

theorem Astray.assignLayer_of_ne (h : b.Astray x) {id : String} (hid : id ≠ x) (layer : Option String) :
    (b.assignLayer id layer).Astray x := by
  have hcopy := copy?_assignLayer_of_ne hid (fun n hn => h.id_ne hn hid) layer
  refine ⟨fun shelf j m hm hx => ?_, (hcopy none).trans h.top, ?_⟩
  · cases hn : b.node? id with
    | none =>
      rw [assignLayer_of_node?_eq_none hn] at hm
      exact h.filed shelf j m hm hx
    | some n =>
      rcases copy?_assignLayer_cases hn hm with ⟨hm, -⟩ | ⟨rfl, rfl⟩
      · exact h.filed shelf j m hm hx
      · exact hx
  · obtain ⟨n, hn, hne⟩ := h.first
    exact ⟨n, (node?_assignLayer_of_ne hid (fun n hn => h.id_ne hn hid) layer).trans hn, hne⟩

/-- When its turn comes the node that is found instead takes its place. -/
theorem Astray.notMem_assignLayer (h : b.Astray x) (layer : Option String) : x ∉ (b.assignLayer x layer).nodeIds := by
  obtain ⟨n, hn, hne⟩ := h.first
  intro hx
  obtain ⟨shelf, j, m, hm, hmx⟩ := mem_nodeIds.mp hx
  rcases copy?_assignLayer_cases hn hm with ⟨hold, hkept⟩ | ⟨-, rfl⟩
  · obtain rfl := h.filed shelf j m hold hmx
    obtain rfl := hkept.resolve_right fun hj => hj rfl
    rw [h.top] at hold
    cases hold
  · exact hne hmx

theorem notMem_assignLayers (h : x ∉ b.nodeIds) (ids : List String) (layer : Option String) :
    x ∉ (b.assignLayers ids layer).nodeIds := by
  unfold Board.assignLayers
  induction ids generalizing b with
  | nil => exact h
  | cons id ids ih =>
    refine ih (b := b.assignLayer id layer) fun hx => h ?_
    obtain ⟨shelf, j, m, hm, hmx⟩ := mem_nodeIds.mp hx
    cases hn : b.node? id with
    | none =>
      rw [assignLayer_of_node?_eq_none hn] at hm
      exact mem_nodeIds.mpr ⟨shelf, j, m, hm, hmx⟩
    | some n =>
      rcases copy?_assignLayer_cases hn hm with ⟨hm, -⟩ | ⟨-, rfl⟩
      · exact mem_nodeIds.mpr ⟨shelf, j, m, hm, hmx⟩
      · obtain ⟨shelf', hc⟩ := copy?_of_node? hn
        exact mem_nodeIds.mpr ⟨shelf', id, n, hc, hmx⟩

theorem Astray.notMem_assignLayers (h : b.Astray x) {ids : List String} (hx : x ∈ ids) (layer : Option String) :
    x ∉ (b.assignLayers ids layer).nodeIds := by
  induction ids generalizing b with
  | nil => cases hx
  | cons id ids ih =>
    by_cases hid : id = x
    · subst hid
      exact Board.notMem_assignLayers (h.notMem_assignLayer layer) ids layer
    · exact ih (h.assignLayer_of_ne hid layer) ((List.mem_cons.mp hx).resolve_left (Ne.symm hid))

/-! ### Mutations -/

theorem houses_perform (h : b.Houses x) {m : Mutation} (hm : m.removesNodes = false)
    (hu : ∀ l members, m ≠ .upsertLayer l members) (hl : ∀ layer keepNodes, m ≠ .removeLayer layer keepNodes) :
    (b.perform m).board.Houses x := by
  have hput : ∀ {f : Node → Node}, (∀ n, (f n).id = n.id) → ∀ {b' : Board}, b'.Houses x → ∀ id, (b'.editNode id f).Houses x :=
    fun hf _ h id => h.editNode id fun n hn => (hf n).trans hn
  refine board_perform (P := (Board.Houses · x)) fun b' hb' => ?_
  cases hb' with
  | refused => exact h
  | addNode => exact h.storeNode _
  | removeNode => cases hm
  | connect | disconnect => exact hput (fun _ => by rfl) (hput (fun _ => by rfl) h _) _
  | updateNode => exact h.editNode _ fun _ _ => rfl
  | moveNode => exact hput (fun _ => by rfl) h _
  | moveInto => exact Houses.assignLayer (hput (fun _ => by rfl) h _) _ _
  | upsertVariable | removeVariable | upsertComment | removeComment => exact h.of_copy?_eq fun _ => rfl
  | upsertLayer => exact absurd rfl (hu _ _)
  | addToLayer | removeFromLayer => exact h.assignLayers _ _
  | removeLayer | removeWhole | removePart => exact absurd rfl (hl _ _)

theorem board_upsertLayer {l : Layer} {members : List String} {r : Receipt} (h : (b.upsertLayer l members).result = .ok r) :
    (b.upsertLayer l members).board = (b.storeLayer l).assignLayers members (some (b.storedLayer l).id) := by
  rw [upsertLayer_eq] at h ⊢
  obtain ⟨_, -, hparent⟩ := Effect.given_of_ok h
  rw [hparent] at h ⊢
  obtain ⟨_, -, hmembers⟩ := Effect.given_of_ok h
  rw [hmembers]

theorem mem_nodeIds_upsertLayer (h : b.Named x) {l : Layer} {members : List String}
    (hfiled : ¬ b.Misfiled (.upsertLayer l members) x) (layer : Option String) :
    x ∈ ((b.storeLayer l).assignLayers members layer).nodeIds := by
  have hstored := h.storeLayer l
  by_cases hmem : x ∈ members
  · -- The first copy of a member is its own, and stays the first.
    obtain ⟨shelf, n, hn, -⟩ := hstored
    obtain ⟨n', hn'⟩ := Option.isSome_iff_exists.mp (node?_isSome_iff.mpr ⟨shelf, n, hn⟩)
    have hleads : (b.storeLayer l).Leads x := ⟨n', hn', by_contra fun hne => hfiled ⟨hmem, n', hn', hne⟩⟩
    exact (hleads.assignLayers members layer).named.mem_nodeIds
  · exact (hstored.assignLayers_of_notMem hmem layer).mem_nodeIds

/-- A node for which another one is taken is astray, if the layer brings no copy of it. -/
theorem Keyed.astray_storeLayer (hb : b.Keyed) {l : Layer} {members : List String}
    (hfiled : b.Misfiled (.upsertLayer l members) x) (hnone : ¬ Mutation.Supplies (.upsertLayer l members) x) :
    (b.storeLayer l).Astray x := by
  obtain ⟨-, n, hn, hne⟩ := hfiled
  refine ⟨fun shelf id m hm hx => ?_, ?_, n, hn, hne⟩
  · cases shelf with
    | none => exact (hb.nodes id m hm).symm.trans hx
    | some layer =>
      rw [copy?_storeLayer_some] at hm
      split at hm
      · rw [nodes_storedLayer] at hm
        split at hm
        · rename_i existing he
          exact (hb.mirrors _ existing he id m hm).symm.trans hx
        · exact absurd ⟨id, m, hm, hx⟩ hnone
      · exact (keyed_iff.mp hb _ id m hm).symm.trans hx
  · cases hc : (b.storeLayer l).copy? none x with
    | none => rfl
    | some m =>
      obtain rfl := Option.some.inj ((node?_of_copy?_none hc).symm.trans hn)
      exact absurd (hb.nodes x _ hc) hne

/-! ### Dissolving a layer -/

/-- A node that is assigned to a layer is at board level afterwards. -/
theorem Houses.top_of_mem (h : b.Houses x) {ids : List String} (hx : x ∈ ids) (layer : Option String) :
    ∃ n, (b.assignLayers ids layer).copy? none x = some n ∧ n.id = x := by
  unfold Board.assignLayers
  induction ids generalizing b with
  | nil => cases hx
  | cons id ids ih =>
    by_cases hid : id = x
    · subst hid
      obtain ⟨shelf, n, hn, -⟩ := h.found
      obtain ⟨n', hn'⟩ := Option.isSome_iff_exists.mp (node?_isSome_iff.mpr ⟨shelf, n, hn⟩)
      obtain ⟨shelf', hc⟩ := copy?_of_node? hn'
      have htop := copy?_assignLayer_none hn' (h.only shelf' n' hc) layer id
      rw [if_pos rfl] at htop
      exact top_assignLayers (b := b.assignLayer id layer) ⟨_, htop, h.only shelf' n' hc⟩ ids layer
    · exact ih (h.assignLayer id layer) ((List.mem_cons.mp hx).resolve_left (Ne.symm hid))

/-- A layer that is removed, its nodes kept, takes along the stranded nodes and no others. -/
theorem mem_nodeIds_removeLayer_iff (hb : b.Keyed) {layer : String} {l : Layer} (hl : b.needLayer layer = .ok l)
    (hx : x ∈ b.nodeIds) :
    x ∈ (b.removeLayer layer true).board.nodeIds ↔ ¬ b.Stranded (.removeLayer layer true) x := by
  rw [removeLayer_keeping hl]
  have hkeyed := hb.assignLayers (b.membersOf layer) l.parent
  rw [(hkeyed.dissolveLayer layer l.parent).mem_nodeIds_iff]
  by_cases hmem : x ∈ b.membersOf layer
  · -- A member goes to the layer's parent, so it is at board level; and it is no stranded node.
    obtain ⟨n, hn, hown⟩ := hb.mem_membersOf.mp hmem
    obtain ⟨shelf, hc⟩ := copy?_of_node? hn
    obtain ⟨n', htop, -⟩ := (hb.houses hx).top_of_mem hmem l.parent
    exact iff_of_true ⟨none, n', htop⟩ fun hs => (hs shelf n hc).2 hown
  · constructor
    · rintro ⟨shelf, n, hn⟩ hs
      cases shelf with
      | none =>
        obtain ⟨he, -⟩ := hs none n ((hb.copy?_assignLayers_of_notMem hmem _ none).symm.trans hn)
        cases he
      | some own =>
        rw [copy?_dissolveLayer_some] at hn
        split at hn
        · cases hn
        · rename_i hne
          obtain ⟨he, -⟩ := hs (some own) n ((hb.copy?_assignLayers_of_notMem hmem _ _).symm.trans hn)
          exact hne (Option.some.inj he).symm
    · intro hs
      -- The counting copy is not in the layer, or it says that it is and the node is a member.
      obtain ⟨shelf₀, n₀, hn₀⟩ := hb.mem_nodeIds_iff.mp hx
      by_contra hnone
      refine hs fun shelf n hn => ?_
      have hshelf : ∀ shelf n, b.copy? shelf x = some n → shelf = some layer := fun shelf n hn => by
        by_contra hne
        refine hnone ⟨shelf, n, ?_⟩
        have hkept := (hb.copy?_assignLayers_of_notMem hmem l.parent shelf).trans hn
        cases shelf with
        | none => exact hkept
        | some own => rw [copy?_dissolveLayer_some, if_neg fun e => hne (congrArg some e.symm), hkept]
      refine ⟨hshelf shelf n hn, fun hown => hmem (hb.mem_membersOf.mpr ⟨n, ?_, hown⟩)⟩
      obtain ⟨n', hn'⟩ := Option.isSome_iff_exists.mp (node?_isSome_iff.mpr ⟨shelf, n, hn⟩)
      obtain ⟨shelf', hc⟩ := copy?_of_node? hn'
      rw [hshelf shelf' n' hc] at hc
      rw [hshelf shelf n hn, hc] at hn
      cases hn
      exact hn'

/-! ### What is lost -/

/-- On a keyed board a mutation that is not meant to remove nodes loses none but those that it strands or
    misfiles. It does lose those that it strands, and those that it misfiles and brings no copy of. -/
theorem execute_keeps_nodes (hb : b.Keyed) {m : Mutation} (hm : m.removesNodes = false) {r : Receipt}
    (hr : (b.execute m).result = .ok r) (hx : x ∈ b.nodeIds) :
    (¬ b.Stranded m x → ¬ b.Misfiled m x → x ∈ (b.execute m).board.nodeIds) ∧
    (b.Stranded m x → x ∉ (b.execute m).board.nodeIds) ∧
    (b.Misfiled m x → ¬ m.Supplies x → x ∉ (b.execute m).board.nodeIds) := by
  obtain ⟨hok, hboard⟩ := execute_of_ok hr
  have hcount : (b.execute m).board.nodeIds = (b.perform m).board.nodeIds := by
    rw [hboard]
    rfl
  rw [hcount]
  have h := hb.houses hx
  by_cases hl : ∃ layer keepNodes, m = .removeLayer layer keepNodes
  · obtain ⟨layer, keepNodes, rfl⟩ := hl
    cases keepNodes with
    | false => cases hm
    | true =>
      obtain ⟨l, hneed, -⟩ := Effect.given_of_ok hok
      have hiff := mem_nodeIds_removeLayer_iff hb hneed hx
      exact ⟨fun hs _ => hiff.mpr hs, fun hs hafter => hiff.mp hafter hs, fun hfiled => hfiled.elim⟩
  · have hne : ∀ layer keepNodes, m ≠ .removeLayer layer keepNodes := fun layer keepNodes e => hl ⟨layer, keepNodes, e⟩
    -- Only dissolving a layer strands nodes.
    have hs : ¬ b.Stranded m x := by
      cases m
      case removeLayer layer keepNodes => exact absurd rfl (hne layer keepNodes)
      all_goals exact fun h => h
    by_cases hu : ∃ l members, m = .upsertLayer l members
    · obtain ⟨l, members, rfl⟩ := hu
      have hafter : (b.perform (.upsertLayer l members)).board = _ := board_upsertLayer hok
      rw [hafter]
      refine ⟨fun _ hfiled => mem_nodeIds_upsertLayer h.found hfiled _, fun hs' => absurd hs' hs, fun hfiled hnone => ?_⟩
      exact (hb.astray_storeLayer hfiled hnone).notMem_assignLayers hfiled.1 _
    · have hnu : ∀ l members, m ≠ .upsertLayer l members := fun l members e => hu ⟨l, members, e⟩
      have hf : ¬ b.Misfiled m x := by
        cases m
        case upsertLayer l members => exact absurd rfl (hnu l members)
        all_goals exact fun h => h
      exact ⟨fun _ _ => (houses_perform h hm hnu hne).mem_nodeIds, fun hs' => absurd hs' hs, fun hf' => absurd hf' hf⟩

/-- A board whose only node is in a layer, and says that no layer owns it. -/
def layerOnly : Board :=
  let hidden : Node := ⟨"hidden", "log", "Log", "", "", none, ∅, .origin, none⟩
  let layer : Layer := ⟨"l", "Layer", none, none, (∅ : KeyMap Node).insert "hidden" hidden, ∅, .origin, none⟩
  { blank "b" "board" with layers := (∅ : KeyMap Layer).insert "l" layer }

/-- The hidden node is lost when its layer is removed, although the nodes are to be kept. -/
theorem hidden_node_lost :
    layerOnly.Keyed ∧ "hidden" ∈ layerOnly.nodeIds ∧
    "hidden" ∉ (layerOnly.execute (.removeLayer "l" true)).board.nodeIds := by
  refine ⟨by decide, by decide, (execute_keeps_nodes (m := .removeLayer "l" true) (by decide) rfl (r := .removed "l") rfl
    (by decide)).2.1 fun shelf n hn => ?_⟩
  cases shelf with
  | none => cases hn
  | some layer =>
    obtain ⟨l, hl, hn⟩ := copy?_some_eq_some.mp hn
    unfold layerOnly at hl
    simp only [KeyMap.get?_insert] at hl
    split at hl
    · rename_i hlayer
      cases hl
      simp only [KeyMap.get?_insert] at hn
      split at hn
      · cases hn
        exact ⟨congrArg some hlayer.symm, by decide⟩
      · cases hn
    · cases hl

/-- A new layer that has another node under the id of a member takes the member's place. -/
example :
    let node (id : String) : Node := ⟨id, "log", "Log", "", "", none, ∅, .origin, none⟩
    let layer (id : String) (n : Node) : Layer := ⟨id, id, none, none, (∅ : KeyMap Node).insert "a" n, ∅, .origin, none⟩
    let b := { blank "b" "board" with layers := (∅ : KeyMap Layer).insert "m" (layer "m" (node "a")) }
    b.nodeIds = ["a"] ∧ (b.execute (.upsertLayer (layer "l" (node "c")) ["a"])).board.nodeIds = ["c"] := by
  decide

end Board

end Workboard
