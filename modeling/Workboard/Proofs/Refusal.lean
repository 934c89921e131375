import Workboard.Proofs.Changes

/-! What a refused mutation leaves behind, and what a successful one counts.

A condition that fails refuses a mutation before anything was changed (`Effect.Clean`). What is looked up
again after a change is still there: a moved node, a layer whose members changed, and each of the nodes
that go with their layer. So a refused mutation leaves the board as it was. What a mutation can make of the
board at all is said once (`Board.Performs`), for all that is kept along mutations. -/

namespace Workboard

/-! ### Effects -/

/-- An effect that leaves the board as it is, if it is a refusal. -/
def Effect.Clean (b : Board) (x : Effect) : Prop := ∀ e, x.result = .error e → x.board = b

namespace Effect

variable {α : Type} {b : Board}

/-- What holds of the board before, and after whatever comes once a condition holds, holds afterwards. -/
theorem board_given {P : Board → Prop} {condition : Except BoardError α} {next : α → Effect} (hb : P b)
    (h : ∀ x, condition = .ok x → P (next x).board) : P (Effect.given b condition next).board := by
  cases hc : condition with
  | error e => exact hb
  | ok x => exact h x hc

/-- What succeeds has met its condition. -/
theorem given_of_ok {condition : Except BoardError α} {next : α → Effect} {r : Receipt}
    (h : (Effect.given b condition next).result = .ok r) :
    ∃ x, condition = .ok x ∧ Effect.given b condition next = next x := by
  cases condition with
  | error e => cases h
  | ok x => exact ⟨x, rfl, rfl⟩

theorem Clean.given {condition : Except BoardError α} {next : α → Effect}
    (h : ∀ x, condition = .ok x → (next x).Clean b) : (Effect.given b condition next).Clean b := by
  intro e he
  cases hc : condition with
  | error e' => rfl
  | ok x =>
    rw [hc] at he
    exact h x hc e he

theorem Clean.of_ok {board : Board} {receipt : Receipt} : (⟨board, .ok receipt⟩ : Effect).Clean b := by
  intro e he
  cases he

theorem Clean.of_board (result : Except BoardError Receipt) : (⟨b, result⟩ : Effect).Clean b := fun _ _ => rfl

/-- An effect that looks something up at the end is clean if that is found. -/
theorem Clean.of_found {board : Board} {found : Except BoardError α} {x : α} (h : found = .ok x) (f : α → Receipt) :
    (⟨board, found.map f⟩ : Effect).Clean b := by
  subst h
  exact Clean.of_ok

end Effect

/-- Whether a mutation stores or removes a variable or a comment. -/
def Mutation.changesTexts : Mutation → Bool
  | .upsertVariable .. | .removeVariable _ | .upsertComment .. | .removeComment _ => true
  | _ => false

namespace Board

variable {b b' b'' : Board}

/-! ### Conditions -/

theorem needNode_eq_ok {id : String} {n : Node} : b.needNode id = .ok n ↔ b.node? id = some n := by
  unfold needNode
  cases b.node? id <;> simp

theorem needLayer_eq_ok {id : String} {l : Layer} : b.needLayer id = .ok l ↔ b.layers.get? id = some l := by
  unfold needLayer layer?
  cases b.layers.get? id <;> simp

/-- A layer is found after a change of nodes if it was there before. -/
theorem needLayer_of_sameRest (h : SameRest b b') {id : String} (hid : b.layers.contains id = true) :
    ∃ l, b'.needLayer id = .ok l := by
  obtain ⟨l, hl⟩ := KeyMap.contains_iff.mp ((h.contains id).trans hid)
  exact ⟨l, needLayer_eq_ok.mpr hl⟩

theorem contains_of_needLayer {id : String} {l : Layer} (h : b.needLayer id = .ok l) : b.layers.contains id = true :=
  KeyMap.contains_iff.mpr ⟨l, needLayer_eq_ok.mp h⟩

theorem node?_of_needNodes {ids : List String} {u : Unit} (h : b.needNodes ids = .ok u) {id : String} (hid : id ∈ ids) :
    ∃ n, b.node? id = some n := by
  unfold needNodes at h
  split at h
  · cases h
  · rename_i hnone
    exact Option.ne_none_iff_exists'.mp (by simpa using List.find?_eq_none.mp hnone id hid)

/-! ### Removing several nodes -/

theorem removeNode_of_node? {id : String} {n : Node} (h : b.node? id = some n) :
    b.removeNode id =
      ⟨(b.dropNode id).editNodes ((b.dropNode id).neighbours n.pins.keys) (·.disconnectFrom n.pins.keys),
        .ok (.removed n.id)⟩ := by
  unfold removeNode
  rw [needNode_eq_ok.mpr h]
  rfl

/-- Removing a node leaves every other one on the board. -/
theorem node?_isSome_removeNode {id j : String} (hj : id ≠ j) (h : (b.node? j).isSome = true) :
    ((b.removeNode id).board.node? j).isSome = true := by
  cases hn : b.node? id with
  | none =>
    have : (b.removeNode id).board = b := by
      unfold removeNode needNode
      rw [hn]
      rfl
    rw [this]
    exact h
  | some n =>
    obtain ⟨shelf, m, hm⟩ := node?_isSome_iff.mp h
    rw [removeNode_of_node? hn, node?_isSome_iff]
    have hkept : ((b.dropNode id).copy? shelf j).isSome = true := by
      rw [copy?_dropNode, if_neg hj, hm]
      rfl
    rw [← isSome_copy?_editNodes] at hkept
    obtain ⟨m', hm'⟩ := Option.isSome_iff_exists.mp hkept
    exact ⟨shelf, m', hm'⟩

/-- Different nodes that are all on the board are removed without a refusal. -/
theorem removeNodes_ok {ids : List String} (hnodup : ids.Nodup) (h : ∀ id ∈ ids, (b.node? id).isSome = true) :
    (b.removeNodes ids).2 = .ok () := by
  induction ids generalizing b with
  | nil => rfl
  | cons id ids ih =>
    obtain ⟨hid, hnodup⟩ := List.nodup_cons.mp hnodup
    obtain ⟨n, hn⟩ := Option.isSome_iff_exists.mp (h id List.mem_cons_self)
    have hrest : ∀ j ∈ ids, ((b.removeNode id).board.node? j).isSome = true := fun j hj =>
      node?_isSome_removeNode (fun e => hid (e ▸ hj)) (h j (List.mem_cons_of_mem id hj))
    have hres := removeNode_of_node? hn
    rw [hres] at hrest
    unfold removeNodes
    rw [hres]
    exact ih hnodup hrest

theorem removeNodes_cons {id : String} {n : Node} (h : b.node? id = some n) (ids : List String) :
    b.removeNodes (id :: ids) = (b.removeNode id).board.removeNodes ids := by
  rw [removeNodes, removeNode_of_node? h]

/-- The nodes of a layer are different, and on the board. -/
theorem nodup_membersOf (b : Board) (layer : String) : (b.membersOf layer).Nodup :=
  Node.nodup_map_id_distinct.sublist (List.filter_sublist.map _)

theorem Keyed.node?_of_mem_membersOf (hb : b.Keyed) {layer id : String} (h : id ∈ b.membersOf layer) :
    (b.node? id).isSome = true := by
  unfold membersOf at h
  obtain ⟨n, hn, rfl⟩ := List.mem_map.mp h
  have hid : n.id ∈ b.nodeIds := List.mem_map.mpr ⟨n, (List.mem_filter.mp hn).1, rfl⟩
  exact node?_isSome_iff.mpr (hb.mem_nodeIds_iff.mp hid)

/-- What holds throughout while the listed nodes are removed one after the other. -/
theorem board_removeNodes {P : Board → Prop} {ids : List String} (hb : P b)
    (h : ∀ b, ∀ id ∈ ids, P b → P (b.removeNode id).board) : P (b.removeNodes ids).1 := by
  induction ids generalizing b with
  | nil => exact hb
  | cons id ids ih =>
    have hone := h b id List.mem_cons_self hb
    have hrest : ∀ b, ∀ j ∈ ids, P b → P (b.removeNode j).board := fun b j hj => h b j (List.mem_cons_of_mem id hj)
    unfold removeNodes
    split
    · rename_i b' _ he
      rw [he] at hone
      exact ih hone hrest
    · rename_i b' _ he
      rw [he] at hone
      exact hone

/-! ### Removing a layer -/

section
variable {id : String} {l : Layer}

theorem removeLayer_keeping (hl : b.needLayer id = .ok l) :
    b.removeLayer id true = ⟨(b.assignLayers (b.membersOf id) l.parent).dissolveLayer id l.parent, .ok (.removed id)⟩ := by
  unfold removeLayer
  rw [hl]
  rfl

/-- The members are different nodes of the board, so none is missing when its turn comes. -/
theorem Keyed.removeLayer_dropping (hb : b.Keyed) (hl : b.needLayer id = .ok l) :
    b.removeLayer id false = ⟨(b.removeNodes (b.membersOf id)).1.dissolveLayer id l.parent, .ok (.removed id)⟩ := by
  have hok := removeNodes_ok (b.nodup_membersOf id) fun _ => hb.node?_of_mem_membersOf
  unfold removeLayer
  rw [hl]
  simp only [Effect.given, Bool.false_eq_true, if_false]
  split
  · rename_i he
    rw [he]
  · rename_i he
    rw [he] at hok
    cases hok

end

/-! ### Refusals -/

/-- A moved node is still on the board. -/
theorem Keyed.node?_isSome_assignLayer (hb : b.Keyed) {id : String} (h : (b.node? id).isSome = true)
    (layer : Option String) : ((b.assignLayer id layer).node? id).isSome = true := by
  obtain ⟨n, hn⟩ := Option.isSome_iff_exists.mp h
  have hc := copy?_assignLayer_none hn (hb.id_of_node? hn) layer id
  rw [if_pos rfl] at hc
  rw [node?_of_copy?_none hc]
  rfl

theorem node?_isSome_editNode {id : String} (h : (b.node? id).isSome = true) (f : Node → Node) :
    ((b.editNode id f).node? id).isSome = true := by
  obtain ⟨shelf, n, hn⟩ := node?_isSome_iff.mp h
  refine node?_isSome_iff.mpr ⟨shelf, f n, ?_⟩
  rw [copy?_editNode, if_pos rfl, hn]
  rfl

theorem clean_moveNode (hb : b.Keyed) (id : String) (goal : Place) (layer : Option String) :
    (b.moveNode id goal layer).Clean b := by
  refine Effect.Clean.given fun n hn => Effect.Clean.given fun _ _ => ?_
  have hfound : (b.node? id).isSome = true := by
    rw [needNode_eq_ok.mp hn]
    rfl
  have hmoved := node?_isSome_editNode hfound fun n => { n with place := goal }
  have hkeyed := hb.editNode (f := fun n => { n with place := goal }) id fun _ h => h
  dsimp only
  split
  · rename_i layer' _
    obtain ⟨m, hm⟩ := Option.isSome_iff_exists.mp (hkeyed.node?_isSome_assignLayer hmoved (some layer'))
    exact Effect.Clean.of_found (needNode_eq_ok.mpr hm) _
  · obtain ⟨m, hm⟩ := Option.isSome_iff_exists.mp hmoved
    exact Effect.Clean.of_found (needNode_eq_ok.mpr hm) _

theorem clean_upsertLayer (l : Layer) (members : List String) : (b.upsertLayer l members).Clean b := by
  rw [upsertLayer_eq]
  refine Effect.Clean.given fun _ _ => Effect.Clean.given fun _ _ => ?_
  have hput : (b.storeLayer l).layers.contains (b.storedLayer l).id = true := by
    simp [storeLayer, KeyMap.contains_insert]
  obtain ⟨_, hfound⟩ := needLayer_of_sameRest (sameRest_assignLayers _ members (some (b.storedLayer l).id)) hput
  exact Effect.Clean.of_found hfound _

theorem clean_addToLayer (id : String) (members : List String) : (b.addToLayer id members).Clean b := by
  refine Effect.Clean.given fun l hl => Effect.Clean.given fun _ _ => ?_
  obtain ⟨_, hfound⟩ := needLayer_of_sameRest (sameRest_assignLayers b members (some id)) (contains_of_needLayer hl)
  exact Effect.Clean.of_found hfound _

theorem clean_removeFromLayer (id : String) (members : List String) : (b.removeFromLayer id members).Clean b := by
  refine Effect.Clean.given fun l hl => Effect.Clean.given fun _ _ => Effect.Clean.given fun _ _ => ?_
  obtain ⟨_, hfound⟩ := needLayer_of_sameRest (sameRest_assignLayers b members l.parent) (contains_of_needLayer hl)
  exact Effect.Clean.of_found hfound _

theorem clean_removeLayer (hb : b.Keyed) (id : String) (keepNodes : Bool) : (b.removeLayer id keepNodes).Clean b := by
  intro e he
  cases hl : b.needLayer id with
  | error _ =>
    unfold removeLayer
    rw [hl]
    rfl
  | ok l =>
    cases keepNodes with
    | true =>
      rw [removeLayer_keeping hl] at he
      cases he
    | false =>
      rw [hb.removeLayer_dropping hl] at he
      cases he

/-- A mutation that is refused changes nothing. -/
theorem clean_perform (hb : b.Keyed) (m : Mutation) : (b.perform m).Clean b := by
  cases m with
  | addNode node layer order => exact Effect.Clean.given fun _ _ => Effect.Clean.of_ok
  | removeNode id => exact Effect.Clean.given fun _ _ => Effect.Clean.of_ok
  | connect w => exact Effect.Clean.given fun _ _ => Effect.Clean.of_ok
  | disconnect w =>
    refine Effect.Clean.given fun _ _ => ?_
    split
    · exact Effect.Clean.of_ok
    · exact Effect.Clean.of_board _
  | updateNode expected node =>
    refine Effect.Clean.given fun _ _ => ?_
    split
    · exact Effect.Clean.of_board _
    · exact Effect.Clean.of_ok
  | moveNode id start goal layer => exact clean_moveNode hb id goal layer
  | upsertVariable v former => exact Effect.Clean.of_ok
  | removeVariable id =>
    show (b.removeVariable id).Clean b
    unfold removeVariable
    split
    · exact Effect.Clean.of_ok
    · exact Effect.Clean.of_board _
  | upsertComment c former layer => exact Effect.Clean.given fun _ _ => Effect.Clean.of_ok
  | removeComment id =>
    show (b.removeComment id).Clean b
    unfold removeComment
    split
    · exact Effect.Clean.of_ok
    · exact Effect.Clean.of_board _
  | upsertLayer l members => exact clean_upsertLayer l members
  | addToLayer id members => exact clean_addToLayer id members
  | removeFromLayer id members => exact clean_removeFromLayer id members
  | removeLayer id keepNodes => exact clean_removeLayer hb id keepNodes

/-! ### What stays -/

theorem sameRest_removeNode (b : Board) (id : String) : SameRest b (b.removeNode id).board := by
  cases hn : b.node? id with
  | none =>
    unfold removeNode needNode
    rw [hn]
    exact SameRest.refl b
  | some n =>
    rw [removeNode_of_node? hn]
    exact (sameRest_dropNode b id).trans (sameRest_editNodes _ _ _)

theorem sameRest_removeNodes (ids : List String) (b : Board) : SameRest b (b.removeNodes ids).1 :=
  board_removeNodes (P := SameRest b) (SameRest.refl b) fun b' id _ h => h.trans (sameRest_removeNode b' id)

/-! ### What a mutation does -/

/-- A variable under an id of its own. -/
def storedVariable (b : Board) (v : Variable) : Variable := if v.id = "" then { v with id := freshId b.takenIds "var" } else v

/-- A comment in a layer, if one is named, and under an id of its own. -/
def storedComment (b : Board) (c : Comment) (layer : Option String) : Comment :=
  let c := if layer.isSome then { c with layer } else c
  if c.id = "" then { c with id := freshId b.takenIds "comment" } else c

/-- What a mutation makes of the board, with the conditions that it has met. One that is refused leaves the board, unless it
    is a layer's and not all of the layer's nodes are found. -/
inductive Performs (b : Board) : Mutation → Board → Prop
  | refused {m : Mutation} : Performs b m b
  | addNode {template : Node} {layer : Option String} {order : List String} (target : b.needLayer? layer = .ok ()) :
    Performs b (.addNode template layer order) (b.storeNode (b.instantiate template layer order))
  | removeNode {id : String} : Performs b (.removeNode id) (b.removeNode id).board
  | connect {w : Wire} (ends : b.needEnds w = .ok ()) :
    Performs b (.connect w)
      ((b.editNode w.fromNode (·.editPin w.fromPin fun p => { p with connectedTo := p.connectedTo.insert w.toPin })).editNode
        w.toNode (·.editPin w.toPin fun p => { p with dependsOn := p.dependsOn.insert w.fromPin }))
  | disconnect {w : Wire} (ends : b.needEnds w = .ok ()) :
    Performs b (.disconnect w)
      ((b.editNode w.fromNode (·.editPin w.fromPin fun p => { p with connectedTo := p.connectedTo.erase w.toPin })).editNode
        w.toNode (·.editPin w.toPin fun p => { p with dependsOn := p.dependsOn.erase w.fromPin }))
  | updateNode {expected : Option Node} {n current : Node} (node : b.node? n.id = some current)
    (fresh : expected.any (· != current) = false) : Performs b (.updateNode expected n) (b.editNode n.id fun _ => n)
  | moveNode {id : String} {start : Option Place} {goal : Place} {layer : Option String} {n : Node} (node : b.node? id = some n) :
    Performs b (.moveNode id start goal layer) (b.editNode id fun n => { n with place := goal })
  | moveInto {id target : String} {start : Option Place} {goal : Place} {layer : Option String} {n : Node}
    (node : b.node? id = some n) (found : b.needLayer? (some target) = .ok ()) :
    Performs b (.moveNode id start goal layer) ((b.editNode id fun n => { n with place := goal }).assignLayer id (some target))
  | upsertVariable {v : Variable} {former : Option Variable} :
    Performs b (.upsertVariable v former) { b with vars := b.vars.insert (b.storedVariable v).id (b.storedVariable v) }
  | removeVariable {id : String} : Performs b (.removeVariable id) { b with vars := b.vars.erase id }
  | upsertComment {c : Comment} {former : Option Comment} {layer : Option String} (target : b.needLayer? layer = .ok ()) :
    Performs b (.upsertComment c former layer)
      { b with comments := b.comments.insert (b.storedComment c layer).id (b.storedComment c layer) }
  | removeComment {id : String} : Performs b (.removeComment id) { b with comments := b.comments.erase id }
  | upsertLayer {l : Layer} {members : List String} (parent : b.needLayer? l.parent = .ok ()) (nodes : b.needNodes members = .ok ()) :
    Performs b (.upsertLayer l members) ((b.storeLayer l).assignLayers members (some (b.storedLayer l).id))
  | addToLayer {id : String} {members : List String} {l : Layer} (layer : b.needLayer id = .ok l)
    (nodes : b.needNodes members = .ok ()) : Performs b (.addToLayer id members) (b.assignLayers members (some id))
  | removeFromLayer {id : String} {members : List String} {l : Layer} (layer : b.needLayer id = .ok l)
    (nodes : b.needNodes members = .ok ()) : Performs b (.removeFromLayer id members) (b.assignLayers members l.parent)
  | removeLayer {id : String} {l : Layer} (layer : b.needLayer id = .ok l) :
    Performs b (.removeLayer id true) ((b.assignLayers (b.membersOf id) l.parent).dissolveLayer id l.parent)
  | removeWhole {id : String} {l : Layer} (layer : b.needLayer id = .ok l) :
    Performs b (.removeLayer id false) ((b.removeNodes (b.membersOf id)).1.dissolveLayer id l.parent)
  | removePart {id : String} : Performs b (.removeLayer id false) (b.removeNodes (b.membersOf id)).1

theorem performs (b : Board) (m : Mutation) : Performs b m (b.perform m).board := by
  have given : ∀ {α : Type} {condition : Except BoardError α} {next : α → Effect},
      (∀ x, condition = .ok x → Performs b m (next x).board) → Performs b m (Effect.given b condition next).board :=
    Effect.board_given (P := Performs b m) .refused
  cases m with
  | addNode node layer order => exact given fun _ hlayer => .addNode hlayer
  | removeNode id => exact .removeNode
  | connect w => exact given fun _ hends => .connect hends
  | disconnect w =>
    refine given fun _ hends => ?_
    split
    · exact .disconnect hends
    · exact .refused
  | updateNode expected node =>
    refine given fun current hcurrent => ?_
    split
    · exact .refused
    · rename_i hfresh
      exact .updateNode (needNode_eq_ok.mp hcurrent) (Bool.eq_false_iff.mpr hfresh)
  | moveNode id start goal layer =>
    refine given fun n hn => given fun _ hlayer => ?_
    dsimp only
    split
    · rename_i target htarget
      rw [htarget] at hlayer
      exact .moveInto (needNode_eq_ok.mp hn) hlayer
    · exact .moveNode (needNode_eq_ok.mp hn)
  | upsertVariable v former => exact .upsertVariable
  | removeVariable id =>
    show Performs b _ (b.removeVariable id).board
    unfold removeVariable
    split
    · exact .removeVariable
    · exact .refused
  | upsertComment c former layer => exact given fun _ hlayer => .upsertComment hlayer
  | removeComment id =>
    show Performs b _ (b.removeComment id).board
    unfold removeComment
    split
    · exact .removeComment
    · exact .refused
  | upsertLayer l members => exact given fun _ hparent => given fun _ hnodes => .upsertLayer hparent hnodes
  | addToLayer id members => exact given fun _ hl => given fun _ hnodes => .addToLayer hl hnodes
  | removeFromLayer id members => exact given fun _ hl => given fun _ hnodes => given fun _ _ => .removeFromLayer hl hnodes
  | removeLayer id keepNodes =>
    refine given fun l hl => ?_
    cases keepNodes with
    | true => exact .removeLayer hl
    | false =>
      rw [if_neg Bool.false_ne_true]
      -- The layer goes only if all of its nodes could be removed; those removed before a failure stay out.
      have hwhole := Performs.removeWhole hl
      have hpart : Performs b (.removeLayer id false) (b.removeNodes (b.membersOf id)).1 := .removePart
      split
      · rename_i he
        rw [he] at hwhole
        exact hwhole
      · rename_i he
        rw [he] at hpart
        exact hpart

/-- What holds after whatever a mutation can do holds after it. -/
theorem board_perform {P : Board → Prop} {m : Mutation} (h : ∀ b', Performs b m b' → P b') : P (b.perform m).board :=
  h _ (b.performs m)

/-- A relation that holds if only nodes change holds along a mutation, if what it does to layers, variables and
    comments keeps to it. -/
theorem perform_related {R : Board → Board → Prop} {m : Mutation} (rest : ∀ {b b'}, SameRest b b' → R b b')
    (trans : ∀ {b b' b''}, R b b' → R b' b'' → R b b'')
    (texts : m.changesTexts = true → ∀ vars comments, R b { b with vars, comments })
    (stored : ∀ l members, m = .upsertLayer l members → R b (b.storeLayer l))
    (dissolved : ∀ b id parent, R b (dissolveLayer b id parent)) : R b (b.perform m).board := by
  refine board_perform fun b' hb' => ?_
  cases hb' with
  | refused => exact rest (.refl b)
  | addNode => exact rest (sameRest_storeNode b _)
  | removeNode => exact rest (sameRest_removeNode b _)
  | connect | disconnect => exact rest ((sameRest_editNode b _ _).trans (sameRest_editNode _ _ _))
  | updateNode | moveNode => exact rest (sameRest_editNode b _ _)
  | moveInto => exact rest ((sameRest_editNode b _ _).trans (sameRest_assignLayer _ _ _))
  | upsertVariable | removeVariable => exact texts rfl _ b.comments
  | upsertComment | removeComment => exact texts rfl b.vars _
  | upsertLayer => exact trans (stored _ _ rfl) (rest (sameRest_assignLayers _ _ _))
  | addToLayer | removeFromLayer => exact rest (sameRest_assignLayers b _ _)
  | removeLayer => exact trans (rest (sameRest_assignLayers b _ _)) (dissolved _ _ _)
  | removeWhole => exact trans (rest (sameRest_removeNodes _ b)) (dissolved _ _ _)
  | removePart => exact rest (sameRest_removeNodes _ b)

/-! ### What is counted -/

/-- The same document, whatever is on it. -/
structure SameHead (b b' : Board) : Prop where
  id : b'.id = b.id
  name : b'.name = b.name
  description : b'.description = b.description
  version : b'.version = b.version

theorem SameHead.trans (h₁ : SameHead b b') (h₂ : SameHead b' b'') : SameHead b b'' :=
  ⟨h₂.id.trans h₁.id, h₂.name.trans h₁.name, h₂.description.trans h₁.description, h₂.version.trans h₁.version⟩

theorem SameRest.head (h : SameRest b b') : SameHead b b' := ⟨h.id, h.name, h.description, h.version⟩

theorem sameHead_dissolveLayer (b : Board) (id : String) (parent : Option String) :
    SameHead b (b.dissolveLayer id parent) := ⟨rfl, rfl, rfl, rfl⟩

theorem sameHead_perform (b : Board) (m : Mutation) : SameHead b (b.perform m).board :=
  perform_related SameRest.head SameHead.trans (fun _ _ _ => ⟨rfl, rfl, rfl, rfl⟩) (fun _ _ _ => ⟨rfl, rfl, rfl, rfl⟩)
    sameHead_dissolveLayer

theorem execute_of_error {m : Mutation} {e : BoardError} (h : (b.execute m).result = .error e) :
    b.execute m = b.perform m := by
  unfold execute at h ⊢
  split
  · rename_i hp
    rw [hp] at h
    cases h
  · rfl

theorem execute_of_ok {m : Mutation} {r : Receipt} (h : (b.execute m).result = .ok r) :
    (b.perform m).result = .ok r ∧ (b.execute m).board = (b.perform m).board.countChange := by
  unfold execute at h ⊢
  split
  · rename_i hp
    rw [hp] at h ⊢
    exact ⟨h, rfl⟩
  · rename_i hne
    split at h
    · rename_i hp
      exact absurd hp (hne _ _)
    · exact absurd (congrArg (Effect.mk (b.perform m).board) h) (hne _ r)

/-- What holds after a mutation, be it counted or not. -/
theorem board_execute {P : Board → Prop} {m : Mutation} (h : P (b.perform m).board) (hcount : ∀ b', P b' → P b'.countChange) :
    P (b.execute m).board := by
  unfold execute
  split
  · rename_i hok
    rw [hok] at h
    exact hcount _ h
  · exact h

/-- A refused mutation leaves the board as it is. -/
theorem Keyed.board_of_error (hb : b.Keyed) {e : BoardError} (h : (b.execute m).result = .error e) :
    (b.execute m).board = b := by
  have heq := execute_of_error h
  rw [heq] at h ⊢
  exact clean_perform hb m e h

/-- A mutation is carried out as a whole or not at all. One that is refused leaves the board as it is;
    one that succeeds is counted once in the version, and the document stays the same otherwise. -/
theorem execute_whole_or_not (hb : b.Keyed) (m : Mutation) :
    (∀ e, (b.execute m).result = .error e → (b.execute m).board = b) ∧
    (∀ r, (b.execute m).result = .ok r →
      (b.version.patch.toNat < UInt32.size - 1 →
        (b.execute m).board.version.patch.toNat = b.version.patch.toNat + 1) ∧
      (b.execute m).board.version.major = b.version.major ∧
      (b.execute m).board.version.minor = b.version.minor ∧
      (b.execute m).board.id = b.id ∧
      (b.execute m).board.name = b.name ∧
      (b.execute m).board.description = b.description) := by
  constructor
  · intro e he
    have heq := execute_of_error he
    rw [heq] at he ⊢
    exact clean_perform hb m e he
  · intro r hr
    obtain ⟨-, hboard⟩ := execute_of_ok hr
    have hhead := sameHead_perform b m
    have hmajor : (b.perform m).board.version.major = b.version.major := by rw [hhead.version]
    have hminor : (b.perform m).board.version.minor = b.version.minor := by rw [hhead.version]
    rw [hboard]
    refine ⟨fun hlt => ?_, hmajor, hminor, hhead.id, hhead.name, hhead.description⟩
    show ((b.perform m).board.version.patch + 1).toNat = b.version.patch.toNat + 1
    rw [hhead.version, UInt32.toNat_add]
    have hsize : UInt32.size = 4294967296 := rfl
    have hone : (1 : UInt32).toNat = 1 := rfl
    omega

/-- Two layers inside each other, with different copies of one node; none is at board level. -/
def tangled : Board :=
  let copy (layer : Option String) : Node := ⟨"n", "log", "Log", "", "", none, ∅, .origin, layer⟩
  let layer (id parent : String) (n : Node) : Layer := ⟨id, id, none, some parent, (∅ : KeyMap Node).insert n.id n, ∅, .origin, none⟩
  { blank "b" "board" with
    layers := ((∅ : KeyMap Layer).insert "x" (layer "x" "y" (copy (some "x")))).insert "y" (layer "y" "x" (copy none)) }

/-- Removing one of two tangled layers with its nodes is counted; a third layer is not there to be removed. -/
theorem execute_tangled :
    tangled.Keyed ∧ (tangled.execute (.removeLayer "x" false)).board.version.patch.toNat = 1 ∧
    (tangled.execute (.removeLayer "z" false)).board = tangled := by
  have hkeyed : tangled.Keyed := by decide
  refine ⟨hkeyed, ?_, ?_⟩
  · exact ((execute_whole_or_not hkeyed (.removeLayer "x" false)).2 (.removed "x") rfl).1 (by decide)
  · exact (execute_whole_or_not hkeyed (.removeLayer "z" false)).1 (.layerNotFound "z") rfl

end Board

end Workboard
