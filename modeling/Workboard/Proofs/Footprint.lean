import Workboard.Proofs.Mirrored
import Workboard.Proofs.NodePins
import Workboard.Proofs.PinStep

/-! What a mutation leaves alone.

A mutation names a few nodes, or one variable, comment or layer. What becomes of these is said case by case; all else stays
as it was, but for what a removal entails (`Board.Footprint`): nodes lose their connections to the pins that go, and what
was in a layer that goes is in the layer around it. The copies of nodes in layers are left out; they follow the nodes. -/

namespace Workboard

namespace Receipt

def var? : Receipt → Option Variable
  | storedVariable v => some v
  | _ => none

def comment? : Receipt → Option Comment
  | storedComment c => some c
  | _ => none

def layer? : Receipt → Option Layer
  | storedLayer l => some l
  | _ => none

end Receipt

namespace Mutation

/-- The key of the variable that a mutation stores or removes. -/
def varKey? (r : Receipt) : Mutation → Option String
  | upsertVariable .. => some r.id
  | removeVariable id => some id
  | _ => none

def commentKey? (r : Receipt) : Mutation → Option String
  | upsertComment .. => some r.id
  | removeComment id => some id
  | _ => none

def layerKey? (r : Receipt) : Mutation → Option String
  | upsertLayer .. => some r.id
  | removeLayer id _ => some id
  | _ => none

end Mutation

namespace Board

variable {b b' : Board} {x id : String} {m : Mutation} {r : Receipt}

/-- The layer around a layer. -/
def parentOf? (b : Board) (id : String) : Option String := (b.layers.get? id).bind (·.parent)

/-- The nodes that a mutation names. -/
def namedNodes (b : Board) (r : Receipt) : Mutation → List String
  | .addNode .. => [r.id]
  | .removeNode id | .moveNode id .. => [id]
  | .connect w | .disconnect w => [w.fromNode, w.toNode]
  | .updateNode _ n => [n.id]
  | .upsertLayer _ members | .addToLayer _ members | .removeFromLayer _ members => members
  | .removeLayer id _ => b.membersOf id
  | _ => []

/-- The nodes that a mutation takes from the board. -/
def removedNodes (b : Board) : Mutation → List String
  | .removeNode id => [id]
  | .removeLayer id false => b.membersOf id
  | _ => []

/-- The pins of several nodes. -/
def pinKeys (b : Board) (ids : List String) : List String := ids.flatMap fun id => ((b.pinsOf? id).map (·.keys)).getD []

/-- What becomes of the copy of a node that a mutation names. -/
def outcome (b : Board) (r : Receipt) (x : String) : Mutation → Option Node → Option Node
  | .addNode .., _ => r.node?
  | .removeNode _, _ | .removeLayer _ false, _ => none
  | .connect w, n => n.map (·.setEnds x w true)
  | .disconnect w, n => n.map (·.setEnds x w false)
  | .updateNode _ n, _ => some n
  | .moveNode _ _ goal layer, n => n.map fun n => { n with place := goal, layer := layer.or n.layer }
  | .upsertLayer .., n => n.map ({ · with layer := some r.id })
  | .addToLayer id _, n => n.map ({ · with layer := some id })
  | .removeFromLayer id _, n | .removeLayer id true, n => n.map ({ · with layer := b.parentOf? id })
  | _, n => n

/-- The layer in which something is after a mutation, by the one in which it was. -/
def promoted (b : Board) : Mutation → Option String → Option String
  | .removeLayer id _, layer => if layer = some id then b.parentOf? id else layer
  | _, layer => layer

/-- A board differs from another just in what a mutation names and in what this entails. -/
structure Footprint (b : Board) (m : Mutation) (r : Receipt) (b' : Board) : Prop where
  id : b'.id = b.id
  name : b'.name = b.name
  description : b'.description = b.description
  named : ∀ x ∈ b.namedNodes r m, b'.nodes.get? x = b.outcome r x m (b.nodes.get? x)
  others : ∀ x ∉ b.namedNodes r m, b'.nodes.get? x = (b.nodes.get? x).map (·.disconnectFrom (b.pinKeys (b.removedNodes m)))
  vars : ∀ k, b'.vars.get? k = if m.varKey? r = some k then r.var? else b.vars.get? k
  comments : ∀ k, b'.comments.get? k =
    if m.commentKey? r = some k then r.comment?
    else (b.comments.get? k).map fun c => { c with layer := b.promoted m c.layer }
  layers : ∀ k, b'.bareLayers.get? k =
    if m.layerKey? r = some k then r.layer?.map fun l => { l with nodes := ∅ }
    else (b.bareLayers.get? k).map fun l => { l with parent := b.promoted m l.parent }

/-! ### What a mutation yields -/

/-- What a mutation that is carried out is answered and makes of the board, with the conditions that it has met. -/
inductive Yields (b : Board) : Mutation → Receipt → Board → Prop
  | addNode {template : Node} {layer : Option String} {order : List String} :
    Yields b (.addNode template layer order) (.storedNode (b.instantiate template layer order))
      (b.storeNode (b.instantiate template layer order))
  | removeNode {id : String} {n : Node} (node : b.node? id = some n) :
    Yields b (.removeNode id) (.removed n.id) (b.removeNode id).board
  | connect {w : Wire} : Yields b (.connect w) (.connection w.fromPin w.toPin) (b.setEnds w true)
  | disconnect {w : Wire} : Yields b (.disconnect w) (.connection w.fromPin w.toPin) (b.setEnds w false)
  | updateNode {expected : Option Node} {n current : Node} (node : b.node? n.id = some current) :
    Yields b (.updateNode expected n) (.storedNode n) (b.editNode n.id fun _ => n)
  | moveNode {id : String} {start : Option Place} {goal : Place} {layer : Option String} {n : Node} {r : Receipt}
    (node : b.node? id = some n) (stays : layerChange n layer = none) :
    Yields b (.moveNode id start goal layer) r (b.editNode id fun n => { n with place := goal })
  | moveInto {id target : String} {start : Option Place} {goal : Place} {layer : Option String} {n : Node} {r : Receipt}
    (node : b.node? id = some n) (moves : layerChange n layer = some target) :
    Yields b (.moveNode id start goal layer) r ((b.editNode id fun n => { n with place := goal }).assignLayer id (some target))
  | upsertVariable {v : Variable} {former : Option Variable} :
    Yields b (.upsertVariable v former) (.storedVariable (b.storedVariable v))
      { b with vars := b.vars.insert (b.storedVariable v).id (b.storedVariable v) }
  | removeVariable {id : String} {v : Variable} :
    Yields b (.removeVariable id) (.removed v.id) { b with vars := b.vars.erase id }
  | upsertComment {c : Comment} {former : Option Comment} {layer : Option String} :
    Yields b (.upsertComment c former layer) (.storedComment (b.storedComment c layer))
      { b with comments := b.comments.insert (b.storedComment c layer).id (b.storedComment c layer) }
  | removeComment {id : String} {c : Comment} :
    Yields b (.removeComment id) (.removed c.id) { b with comments := b.comments.erase id }
  | upsertLayer {l l' : Layer} {members : List String} (nodes : b.needNodes members = .ok ())
    (found : ((b.storeLayer l).assignLayers members (some (b.storedLayer l).id)).layers.get? (b.storedLayer l).id = some l') :
    Yields b (.upsertLayer l members) (.storedLayer l') ((b.storeLayer l).assignLayers members (some (b.storedLayer l).id))
  | addToLayer {id : String} {members : List String} {r : Receipt} :
    Yields b (.addToLayer id members) r (b.assignLayers members (some id))
  | removeFromLayer {id : String} {members : List String} {l : Layer} {r : Receipt} (layer : b.layers.get? id = some l) :
    Yields b (.removeFromLayer id members) r (b.assignLayers members l.parent)
  | removeLayer {id : String} {l : Layer} (layer : b.layers.get? id = some l) :
    Yields b (.removeLayer id true) (.removed id) ((b.assignLayers (b.membersOf id) l.parent).dissolveLayer id l.parent)
  | removeWhole {id : String} {l : Layer} (layer : b.layers.get? id = some l) :
    Yields b (.removeLayer id false) (.removed id) ((b.removeNodes (b.membersOf id)).1.dissolveLayer id l.parent)

/-- A mutation that is carried out under a condition has met it. -/
theorem Yields.of_given {α : Type} {condition : Except BoardError α} {next : α → Effect}
    (hr : (Effect.given b condition next).result = .ok r)
    (hnext : ∀ y, condition = .ok y → (next y).result = .ok r → b.Yields m r (next y).board) :
    b.Yields m r (Effect.given b condition next).board := by
  obtain ⟨y, hy, heq⟩ := Effect.given_of_ok hr
  rw [heq] at hr ⊢
  exact hnext y hy hr

theorem yields_upsertLayer {l : Layer} {members : List String} (hr : (b.upsertLayer l members).result = .ok r) :
    b.Yields (.upsertLayer l members) r (b.upsertLayer l members).board := by
  rw [upsertLayer_eq] at hr ⊢
  refine .of_given hr fun _ _ hok => .of_given hok fun _ hnodes hok => ?_
  dsimp only at hok ⊢
  cases hfound : ((b.storeLayer l).assignLayers members (some (b.storedLayer l).id)).needLayer (b.storedLayer l).id with
  | error e =>
    rw [hfound] at hok
    cases hok
  | ok l' =>
    rw [hfound] at hok
    cases hok
    exact .upsertLayer hnodes (needLayer_eq_ok.mp hfound)

theorem Keyed.yields_removeLayer (hb : b.Keyed) {keepNodes : Bool} (hr : (b.removeLayer id keepNodes).result = .ok r) :
    b.Yields (.removeLayer id keepNodes) r (b.removeLayer id keepNodes).board := by
  obtain ⟨l, hl, -⟩ := Effect.given_of_ok hr
  cases keepNodes with
  | true =>
    rw [removeLayer_keeping hl] at hr ⊢
    cases hr
    exact .removeLayer (needLayer_eq_ok.mp hl)
  | false =>
    rw [hb.removeLayer_dropping hl] at hr ⊢
    cases hr
    exact .removeWhole (needLayer_eq_ok.mp hl)

theorem Keyed.yields (hb : b.Keyed) (hr : (b.perform m).result = .ok r) : b.Yields m r (b.perform m).board := by
  cases m with
  | addNode template layer order =>
    refine .of_given hr fun _ _ hok => ?_
    cases hok
    exact .addNode
  | removeNode id =>
    obtain ⟨n, hn, -⟩ := Effect.given_of_ok hr
    have hn := needNode_eq_ok.mp hn
    -- Once the node is found its removal does not fail, so the receipt can be read off.
    have hremoved : b.removeNode id = ⟨_, .ok (.removed n.id)⟩ := removeNode_of_node? hn
    obtain rfl : Receipt.removed n.id = r := by
      change (b.removeNode id).result = .ok r at hr
      rw [hremoved] at hr
      exact Except.ok.inj hr
    exact .removeNode hn
  | connect w =>
    refine .of_given hr fun _ _ hok => ?_
    cases hok
    exact .connect
  | disconnect w =>
    refine .of_given hr fun _ _ hok => ?_
    split at hok
    · rename_i hon
      cases hok
      rw [if_pos hon]
      exact .disconnect
    · cases hok
  | updateNode expected n =>
    refine .of_given hr fun current hcurrent hok => ?_
    split at hok
    · cases hok
    · rename_i hsame
      cases hok
      rw [if_neg hsame]
      exact .updateNode (needNode_eq_ok.mp hcurrent)
  | moveNode id start goal layer =>
    refine .of_given hr fun n hn hok => .of_given hok fun _ _ _ => ?_
    dsimp only
    split
    · rename_i target htarget
      exact .moveInto (needNode_eq_ok.mp hn) htarget
    · rename_i hstays
      exact .moveNode (needNode_eq_ok.mp hn) hstays
  | upsertVariable v former =>
    cases hr
    exact .upsertVariable
  | removeVariable id =>
    change (b.removeVariable id).result = .ok r at hr
    show b.Yields _ r (b.removeVariable id).board
    unfold removeVariable at hr ⊢
    split at hr
    · cases hr
      exact .removeVariable
    · cases hr
  | upsertComment c former layer =>
    refine .of_given hr fun _ _ hok => ?_
    cases hok
    exact .upsertComment
  | removeComment id =>
    change (b.removeComment id).result = .ok r at hr
    show b.Yields _ r (b.removeComment id).board
    unfold removeComment at hr ⊢
    split at hr
    · cases hr
      exact .removeComment
    · cases hr
  | upsertLayer l members => exact yields_upsertLayer hr
  | addToLayer id members => exact .of_given hr fun _ _ hok => .of_given hok fun _ _ _ => .addToLayer
  | removeFromLayer id members =>
    refine .of_given hr fun l hl hok => .of_given hok fun _ _ hok => .of_given hok fun _ _ _ => ?_
    exact .removeFromLayer (needLayer_eq_ok.mp hl)
  | removeLayer id keepNodes => exact hb.yields_removeLayer hr

/-! ### Changes of nodes -/

theorem map_disconnectFrom_pinKeys_nil (b : Board) (o : Option Node) : o.map (·.disconnectFrom (b.pinKeys [])) = o := by
  have hsame : ∀ n : Node, n.disconnectFrom [] = n := fun n => congrArg (fun pins => { n with pins }) n.pins.disconnectFrom_nil
  simp [pinKeys, hsame]

theorem InStep.copy?_removeNodes (h : b.InStep) {ids : List String} (hnodup : ids.Nodup)
    (hfound : ∀ id ∈ ids, (b.node? id).isSome = true) (x : String) :
    (b.removeNodes ids).1.copy? none x =
      if x ∈ ids then none else (b.copy? none x).map (·.disconnectFrom (b.pinKeys ids)) := by
  induction ids generalizing b with
  | nil => exact (b.map_disconnectFrom_pinKeys_nil _).symm
  | cons id ids ih =>
    obtain ⟨hid, hnodup⟩ := List.nodup_cons.mp hnodup
    obtain ⟨n, hn⟩ := Option.isSome_iff_exists.mp (hfound id List.mem_cons_self)
    have hrest : ∀ j ∈ ids, ((b.removeNode id).board.node? j).isSome = true := fun j hj =>
      node?_isSome_removeNode (fun e => hid (e ▸ hj)) (hfound j (List.mem_cons_of_mem id hj))
    -- The nodes that go later have lost connections by then, but no pins.
    have hkeys : (b.removeNode id).board.pinKeys ids = b.pinKeys ids := by
      refine List.flatMap_congr fun j hj => ?_
      have hne : id ≠ j := fun e => hid (e ▸ hj)
      rw [pinsOf?, pinsOf?, (h.removeNode id).node?, h.node?, h.copy?_removeNode hn, if_neg hne]
      cases b.copy? none j with
      | none => rfl
      | some m => exact m.pins.keys_mapValues _
    have hown : b.pinKeys (id :: ids) = n.pins.keys ++ b.pinKeys ids := by
      rw [pinKeys, List.flatMap_cons, pinsOf?, hn]
      rfl
    have happend : ∀ m : Node, (m.disconnectFrom n.pins.keys).disconnectFrom (b.pinKeys ids) =
        m.disconnectFrom (n.pins.keys ++ b.pinKeys ids) := fun m =>
      congrArg (fun pins => { m with pins }) (m.pins.disconnectFrom_append _ _).symm
    rw [removeNodes_cons hn, ih (h.removeNode id) hnodup hrest, hkeys, hown, h.copy?_removeNode hn]
    by_cases hx : id = x
    · simp [hx]
    · simp [hx, Ne.symm hx, Function.comp_def, happend]

/-- Members of a layer that is stored are found under their ids. -/
theorem InStep.anchored_storeLayer (h : b.InStep) (l : Layer) {u : Unit} {members : List String}
    (hmembers : b.needNodes members = .ok u) : ∀ id ∈ members, (b.storeLayer l).Anchored id := by
  intro id hid m hm
  obtain ⟨n, hn⟩ := node?_of_needNodes hmembers hid
  have htop : (b.storeLayer l).copy? none id = some n := (h.node? id).symm.trans hn
  obtain rfl : n = m := Option.some.inj ((node?_of_copy?_none htop).symm.trans hm)
  exact ⟨htop, h.toKeyed.id_of_node? hn⟩

theorem get?_bareLayers_dissolveLayer (b : Board) (id : String) (parent : Option String) (k : String) :
    (b.dissolveLayer id parent).bareLayers.get? k =
      if id = k then none
      else (b.bareLayers.get? k).map fun l => { l with parent := if l.parent = some id then parent else l.parent } := by
  rw [get?_bareLayers, get?_bareLayers, dissolveLayer, KeyMap.get?_erase, KeyMap.get?_mapValues]
  split
  · rfl
  · cases b.layers.get? k with
    | none => rfl
    | some l =>
      simp only [Option.map_some]
      split <;> rfl

theorem layerChange_or (n : Node) (layer : Option String) : (layerChange n layer).or n.layer = layer.or n.layer := by
  unfold layerChange
  split
  · rename_i hsame
    rw [hsame, Option.or_self, Option.none_or]
  · rfl

/-! ### Footprints -/

/-- Where only nodes change. -/
theorem SameRest.footprint (h : SameRest b b')
    (hkeys : m.varKey? r = none ∧ m.commentKey? r = none ∧ m.layerKey? r = none)
    (hpromoted : ∀ layer, b.promoted m layer = layer)
    (hnodes : ∀ x, b'.copy? none x = if x ∈ b.namedNodes r m then b.outcome r x m (b.copy? none x)
      else (b.copy? none x).map (·.disconnectFrom (b.pinKeys (b.removedNodes m)))) : b.Footprint m r b' := by
  obtain ⟨hvar, hcomment, hlayer⟩ := hkeys
  refine ⟨h.id, h.name, h.description, fun x hx => (hnodes x).trans (if_pos hx), fun x hx => (hnodes x).trans (if_neg hx),
    fun k => ?_, fun k => ?_, fun k => ?_⟩
  · rw [hvar, h.vars]
    simp
  · rw [hcomment, h.comments]
    simp [hpromoted]
  · rw [hlayer, h.layers]
    simp [hpromoted]

/-- Where only the nodes that are named change. -/
theorem SameRest.footprint_of_kept (h : SameRest b b')
    (hkeys : m.varKey? r = none ∧ m.commentKey? r = none ∧ m.layerKey? r = none)
    (hpromoted : ∀ layer, b.promoted m layer = layer) (hkept : b.removedNodes m = [])
    (hnodes : ∀ x, b'.copy? none x = if x ∈ b.namedNodes r m then b.outcome r x m (b.copy? none x) else b.copy? none x) :
    b.Footprint m r b' :=
  h.footprint hkeys hpromoted fun x => by rw [hkept, map_disconnectFrom_pinKeys_nil, hnodes]

/-- Where no node changes. -/
theorem footprint_of_nodes (hhead : SameHead b b') (hnodes : b'.nodes = b.nodes) (hnone : b.namedNodes r m = [])
    (hkept : b.removedNodes m = [])
    (hvars : ∀ k, b'.vars.get? k = if m.varKey? r = some k then r.var? else b.vars.get? k)
    (hcomments : ∀ k, b'.comments.get? k = if m.commentKey? r = some k then r.comment? else b.comments.get? k)
    (hlayers : b'.layers = b.layers) (hlayer : m.layerKey? r = none) (hpromoted : ∀ layer, b.promoted m layer = layer) :
    b.Footprint m r b' where
  id := hhead.id
  name := hhead.name
  description := hhead.description
  named x hx := by
    rw [hnone] at hx
    cases hx
  others x _ := by rw [hkept, map_disconnectFrom_pinKeys_nil, hnodes]
  vars := hvars
  comments k := by
    rw [hcomments]
    simp [hpromoted]
  layers k := by
    rw [hlayer, bareLayers, hlayers]
    simp [hpromoted, bareLayers]

/-- A layer that goes leaves what was in it to the layer around it. -/
theorem footprint_dissolveLayer {keepNodes : Bool} {l : Layer} (hl : b.layers.get? id = some l) (hrest : SameRest b b')
    (hnodes : ∀ x, b'.copy? none x =
      if x ∈ b.membersOf id then b.outcome (.removed id) x (.removeLayer id keepNodes) (b.copy? none x)
      else (b.copy? none x).map (·.disconnectFrom (b.pinKeys (b.removedNodes (.removeLayer id keepNodes))))) :
    b.Footprint (.removeLayer id keepNodes) (.removed id) (b'.dissolveLayer id l.parent) where
  id := hrest.id
  name := hrest.name
  description := hrest.description
  named x hx := (hnodes x).trans (if_pos hx)
  others x hx := (hnodes x).trans (if_neg hx)
  vars k := by
    show b'.vars.get? k = b.vars.get? k
    rw [hrest.vars]
  comments k := by
    show (b'.comments.mapValues _).get? k = (b.comments.get? k).map _
    rw [KeyMap.get?_mapValues, hrest.comments]
    refine congrArg (fun f => Option.map f (b.comments.get? k)) (funext fun c => ?_)
    simp only [promoted, parentOf?, hl, Option.bind_some]
    split <;> rfl
  layers k := by
    rw [get?_bareLayers_dissolveLayer, hrest.layers]
    simp only [Mutation.layerKey?, promoted, parentOf?, hl, Option.bind_some, Option.some.injEq]
    split <;> rfl

theorem copy?_setEnds_of_named (b : Board) (w : Wire) (on : Bool) (x : String) :
    (b.setEnds w on).copy? none x =
      if x ∈ [w.fromNode, w.toNode] then (b.copy? none x).map (·.setEnds x w on) else b.copy? none x := by
  rw [copy?_setEnds]
  split
  · rfl
  · rename_i hx
    obtain ⟨hfrom, hto⟩ : x ≠ w.fromNode ∧ x ≠ w.toNode := by simpa using hx
    have hsame : ∀ n : Node, n.setEnds x w on = n := fun n => n.setEnds_of_ne hfrom.symm hto.symm on
    simp [hsame]

theorem InStep.footprint_upsertLayer (h : b.InStep) {l l' : Layer} {members : List String} (hmembers : b.needNodes members = .ok ())
    (hfound : ((b.storeLayer l).assignLayers members (some (b.storedLayer l).id)).layers.get? (b.storedLayer l).id = some l') :
    b.Footprint (.upsertLayer l members) (.storedLayer l')
      ((b.storeLayer l).assignLayers members (some (b.storedLayer l).id)) := by
  have hrest := sameRest_assignLayers (b.storeLayer l) members (some (b.storedLayer l).id)
  -- The layer that is found again is the one that was stored, its copies apart.
  have hstored : l' = { b.storedLayer l with nodes := l'.nodes } := by
    obtain ⟨l₀, hl₀, he⟩ := hrest.layer hfound
    rw [Board.storeLayer, KeyMap.get?_insert, if_pos rfl] at hl₀
    rwa [← Option.some.inj hl₀] at he
  have hid : l'.id = (b.storedLayer l).id := by rw [hstored]
  have hnodes := copy?_assignLayers_none (h.anchored_storeLayer l hmembers) (some (b.storedLayer l).id)
  refine ⟨hrest.id, hrest.name, hrest.description, fun x hx => ?_, fun x hx => ?_, fun k => ?_, fun k => ?_, fun k => ?_⟩
  · refine (hnodes x).trans ((if_pos hx).trans ?_)
    rw [← hid]
    rfl
  · refine (hnodes x).trans ((if_neg hx).trans ?_)
    exact (b.map_disconnectFrom_pinKeys_nil _).symm
  · rw [hrest.vars]
    rfl
  · rw [hrest.comments]
    simp [Mutation.commentKey?, promoted, Board.storeLayer]
  · rw [hrest.layers, get?_bareLayers, get?_bareLayers, Board.storeLayer, KeyMap.get?_insert]
    simp only [Mutation.layerKey?, Receipt.id, Receipt.layer?, hid, promoted, Option.some.injEq]
    split
    · rw [hstored]
      rfl
    · exact (Option.map_id' ..).symm

theorem InStep.footprint (h : b.InStep) (hy : b.Yields m r b') : b.Footprint m r b' := by
  cases hy with
  | addNode =>
    refine (sameRest_storeNode b _).footprint_of_kept ⟨rfl, rfl, rfl⟩ (fun _ => rfl) rfl fun x => ?_
    simp only [copy?_storeNode_none, namedNodes, List.mem_singleton, @eq_comm _ x]
    rfl
  | @removeNode id n hn =>
    have hpins : b.pinKeys [id] = n.pins.keys := by simp [pinKeys, pinsOf?, hn]
    refine (sameRest_removeNode b id).footprint ⟨rfl, rfl, rfl⟩ (fun _ => rfl) fun x => ?_
    simp only [h.copy?_removeNode hn, namedNodes, removedNodes, hpins, List.mem_singleton, @eq_comm _ x]
    rfl
  | connect | disconnect =>
    refine (sameRest_setEnds b _ _).footprint_of_kept ⟨rfl, rfl, rfl⟩ (fun _ => rfl) rfl fun x => ?_
    exact copy?_setEnds_of_named b _ _ x
  | @updateNode _ n current hn =>
    refine (sameRest_editNode b _ _).footprint_of_kept ⟨rfl, rfl, rfl⟩ (fun _ => rfl) rfl fun x => ?_
    simp only [copy?_editNode, namedNodes, outcome, List.mem_singleton, @eq_comm _ x]
    split
    · rename_i hx
      rw [← hx, ← h.node?, hn, Option.map_some]
    · rfl
  | @moveNode id _ goal layer n _ hn hstays =>
    refine (sameRest_editNode b id _).footprint_of_kept ⟨rfl, rfl, rfl⟩ (fun _ => rfl) rfl fun x => ?_
    have hown := layerChange_or n layer
    simp only [copy?_editNode, namedNodes, outcome, List.mem_singleton, @eq_comm _ x]
    split
    · rename_i hx
      rw [← hx, ← h.node?, hn, Option.map_some, Option.map_some, ← hown, hstays, Option.none_or]
    · rfl
  | @moveInto id target _ goal layer n _ hn hmoves =>
    refine ((sameRest_editNode b id _).trans (sameRest_assignLayer _ id _)).footprint_of_kept ⟨rfl, rfl, rfl⟩ (fun _ => rfl) rfl
      fun x => ?_
    have hown := layerChange_or n layer
    -- The layer gets the node as it is after it was put to its place.
    rw [((h.setPlace id goal).anchored id).copy?_assignLayer]
    simp only [copy?_editNode, namedNodes, outcome, List.mem_singleton, @eq_comm _ x]
    split
    · rename_i hx
      rw [← hx, ← h.node?, hn, Option.map_some, Option.map_some, Option.map_some, ← hown, hmoves, Option.some_or]
    · rfl
  | upsertVariable | upsertComment =>
    refine footprint_of_nodes ⟨rfl, rfl, rfl, rfl⟩ rfl rfl rfl (fun k => ?_) (fun k => ?_) rfl rfl fun _ => rfl
    all_goals simp [KeyMap.get?_insert, Mutation.varKey?, Mutation.commentKey?, Receipt.var?, Receipt.comment?, Receipt.id]
  | removeVariable | removeComment =>
    refine footprint_of_nodes ⟨rfl, rfl, rfl, rfl⟩ rfl rfl rfl (fun k => ?_) (fun k => ?_) rfl rfl fun _ => rfl
    all_goals simp [KeyMap.get?_erase, Mutation.varKey?, Mutation.commentKey?, Receipt.var?, Receipt.comment?]
  | @upsertLayer l l' members hmembers hfound => exact h.footprint_upsertLayer hmembers hfound
  | @addToLayer id members =>
    refine (sameRest_assignLayers b members _).footprint_of_kept ⟨rfl, rfl, rfl⟩ (fun _ => rfl) rfl fun x => ?_
    exact copy?_assignLayers_none (fun j _ => h.anchored j) (some id) x
  | @removeFromLayer id members l _ hl =>
    refine (sameRest_assignLayers b members _).footprint_of_kept ⟨rfl, rfl, rfl⟩ (fun _ => rfl) rfl fun x => ?_
    have hparent : b.parentOf? id = l.parent := by simp [parentOf?, hl]
    simp only [outcome, hparent]
    exact copy?_assignLayers_none (fun j _ => h.anchored j) l.parent x
  | @removeLayer id l hl =>
    refine footprint_dissolveLayer hl (sameRest_assignLayers b _ _) fun x => ?_
    have hparent : b.parentOf? id = l.parent := by simp [parentOf?, hl]
    simp only [outcome, hparent, removedNodes, map_disconnectFrom_pinKeys_nil]
    exact copy?_assignLayers_none (fun j _ => h.anchored j) l.parent x
  | @removeWhole id l hl =>
    refine footprint_dissolveLayer hl (sameRest_removeNodes _ b) fun x => ?_
    exact h.copy?_removeNodes (b.nodup_membersOf id) (fun _ => h.toKeyed.node?_of_mem_membersOf) x

theorem Footprint.countChange (h : b.Footprint m r b') : b.Footprint m r b'.countChange :=
  ⟨h.id, h.name, h.description, h.named, h.others, h.vars, h.comments, h.layers⟩

/-- A mutation that is carried out on a board whose copies are in step changes what it names and what this entails, besides
the version and the copies in layers; as long as it removes no node, nodes that it does not name stay the same. -/
theorem execute_footprint (h : b.InStep) (hr : (b.execute m).result = .ok r) :
    b.Footprint m r (b.execute m).board ∧
    (b.removedNodes m = [] → ∀ x ∉ b.namedNodes r m, (b.execute m).board.nodes.get? x = b.nodes.get? x) := by
  obtain ⟨hperform, hboard⟩ := execute_of_ok hr
  have hfootprint : b.Footprint m r (b.execute m).board := hboard ▸ (h.footprint (h.toKeyed.yields hperform)).countChange
  refine ⟨hfootprint, fun hkept x hx => ?_⟩
  rw [hfootprint.others x hx, hkept, map_disconnectFrom_pinKeys_nil]

/-- Three layers, one inside the other, with a node and a comment in the middle one; the node feeds another. -/
def nested : Board :=
  let outlet : Pin := { Placeholder.plainPin "out" "Out" "" .output .string .single with connectedTo := .ofList ["in"] }
  let inlet : Pin := { Placeholder.plainPin "in" "In" "" .input .string .single with dependsOn := .ofList ["other", "out"] }
  let owned : Node := ⟨"m", "read", "Read", "", "", none, .ofList [("out", outlet)], .origin, some "l"⟩
  let free : Node := ⟨"n", "log", "Log", "", "", none, .ofList [("in", inlet)], .origin, none⟩
  let layer (id name : String) (parent : Option String) (nodes : KeyMap Node) : Layer :=
    ⟨id, name, none, parent, nodes, ∅, .origin, none⟩
  { blank "b" "board" with
    nodes := .ofList [("m", owned), ("n", free)]
    comments := .ofList [("c", ⟨"c", "Why?", none, .origin, none, none, none, none, 0, some "l"⟩)]
    layers := .ofList [("k", layer "k" "Inner" (some "l") ∅), ("l", layer "l" "Middle" (some "o") (.ofList [("m", owned)])),
      ("o", layer "o" "Outer" none ∅)] }

theorem inStep_nested : nested.InStep where
  toKeyed := by decide
  same layer x n hn := by
    obtain ⟨l, hl, hn⟩ := copy?_some_eq_some.mp hn
    rcases List.mem_cons.mp (KeyMap.mem_of_get?_ofList hl) with he | he
    · cases he
      cases hn
    rcases List.mem_cons.mp he with he | he
    · cases he
      cases List.mem_singleton.mp (KeyMap.mem_of_get?_ofList hn)
      rfl
    · cases List.mem_singleton.mp he
      cases hn

/-- A layer is removed with the node that it owns: another node loses its connection to that, and the inner layer comes out. -/
theorem footprint_removed_layer :
    let m : Mutation := .removeLayer "l" false
    nested.InStep ∧ (nested.execute m).result = .ok (.removed "l") ∧
    nested.Footprint m (.removed "l") (nested.execute m).board ∧
    nested.namedNodes (.removed "l") m = ["m"] ∧ nested.pinKeys (nested.removedNodes m) = ["out"] ∧
    ((nested.execute m).board.nodePin? "n" "in").map (·.dependsOn.toList) = some ["other"] ∧
    ((nested.execute m).board.layers.get? "k").map (·.parent) = some (some "o") := by
  intro m
  have hr : (nested.execute m).result = .ok (.removed "l") := rfl
  exact ⟨inStep_nested, hr, (execute_footprint inStep_nested hr).1, rfl, by decide, by decide, by decide⟩

end Board

end Workboard
