import Workboard.Apply.Addressing
import Workboard.Proofs.Keyed

/-! The mutations that actions stand for.

An action's mutation is told by what was found for it (`Action.Asks`). Whatever view of the board an action is
addressed on, its mutation has a form of its own (`Mutation.Proper`): a node is replaced only by the expected
one with another default value, a comment goes to the layer that it names, a new layer comes without id, nodes
and pins, and a removed layer leaves its nodes. -/

namespace Workboard

/-- The form of a mutation that an action stands for. -/
def Mutation.Proper : Mutation → Prop
  | .updateNode expected n => ∃ old pin value, expected = some old ∧ n = old.withDefault pin value
  | .upsertComment c _ layer => c.layer = layer
  | .upsertLayer l _ => l.id = "" ∧ l.nodes = ∅ ∧ l.pins = ∅
  | .removeLayer _ keepNodes => keepNodes = true
  | _ => True

/-- Whether a mutation makes a node. -/
def Mutation.makesNode : Mutation → Bool
  | .addNode .. => true
  | _ => false

theorem bind_eq_ok {ε α β : Type} {x : Except ε α} {f : α → Except ε β} {y : β} (h : (x >>= f) = .ok y) :
    ∃ a, x = .ok a ∧ f a = .ok y := by
  cases x with
  | error e => cases h
  | ok a => exact ⟨a, rfl, h⟩

theorem bind_eq_error {ε α β : Type} {x : Except ε α} {f : α → Except ε β} {e : ε} (h : (x >>= f) = .error e) :
    x = .error e ∨ ∃ a, x = .ok a ∧ f a = .error e := by
  cases x with
  | error e' => exact .inl (congrArg _ (Except.error.inj h))
  | ok a => exact .inr ⟨a, rfl, h⟩

theorem eq_error_of_map {ε α β : Type} {f : α → β} {x : Except ε α} {e : ε} (h : x.map f = .error e) : x = .error e := by
  cases x with
  | error e' => exact congrArg _ (Except.error.inj h)
  | ok a => cases h

theorem exists_of_mapError {ε ε' α : Type} {f : ε → ε'} {x : Except ε α} {e : ε'} (h : x.mapError f = .error e) :
    ∃ e', x = .error e' ∧ f e' = e := by
  cases x with
  | error e' => exact ⟨e', rfl, Except.error.inj h⟩
  | ok a => cases h

theorem exists_ok_of_isOk {ε α : Type} {x : Except ε α} (h : x.isOk = true) : ∃ a, x = .ok a := by
  cases x with
  | error e => cases h
  | ok a => exact ⟨a, rfl⟩

theorem exists_of_discard {ε α : Type} {e : Except ε α} {u : PUnit} (h : discard e = .ok u) : ∃ v, e = .ok v := by
  cases e with
  | error e => cases h
  | ok v => exact ⟨v, rfl⟩

theorem exists_of_forall₂ {α β : Type} {P : α → β → Prop} {l : List α} {rs : List β} (h : List.Forall₂ P l rs)
    {a : α} (ha : a ∈ l) : ∃ r ∈ rs, P a r := by
  induction h with
  | nil => cases ha
  | cons hr _ ih =>
    rcases List.mem_cons.mp ha with rfl | ha
    · exact ⟨_, List.mem_cons_self, hr⟩
    · obtain ⟨r, hmem, hr⟩ := ih ha
      exact ⟨r, List.mem_cons_of_mem _ hmem, hr⟩

namespace Action

/-- What an action asks for, with what was found for it on the view. -/
inductive Asks (s : References) (view : Board) (now : UInt64) : Action → Mutation → Prop
  | removeNode {ref : String} {n : Node} (node : s.node view ref = .ok n) :
    Asks s view now (.removeNode ref) (.removeNode n.id)
  | connectPins {r : WireRequest} {w : Wire} (ends : s.wire view r = .ok w) :
    Asks s view now (.connectPins r) (.connect w)
  | disconnectPins {r : WireRequest} {w : Wire} (ends : s.wire view r = .ok w) :
    Asks s view now (.disconnectPins r) (.disconnect w)
  | updateNodePin {ref name : String} {value : Json} {n : Node} {found : PinMatch} (node : s.node view ref = .ok n)
    (pin : s.pin ref n name = .ok found) :
    Asks s view now (.updateNodePin ref name value) (.updateNode (some n) (n.withDefault found.pin (storedValue value)))
  | moveNode {ref : String} {spot : Spot} {layer : Option String} {n : Node} (node : s.node view ref = .ok n)
    (target : view.viewLayer? layer = .ok ()) :
    Asks s view now (.moveNode ref spot layer) (.moveNode n.id (some n.place) (spot.place n.place.z) layer)
  | createVariable {r : VariableRequest} {v : Variable} (record : r.record = .ok v) :
    Asks s view now (.createVariable r) (.upsertVariable v none)
  | updateVariable {id : String} {edit : VariableEdit} {v : Variable} (found : view.viewVariable id = .ok v) :
    Asks s view now (.updateVariable id edit) (.upsertVariable (edit.apply v) (some v))
  | deleteVariable {id : String} {v : Variable} (found : view.viewVariable id = .ok v) :
    Asks s view now (.deleteVariable id) (.removeVariable id)
  | createComment {r : CommentRequest} (layer : view.viewLayer? r.layer = .ok ()) :
    Asks s view now (.createComment r) (.upsertComment (r.record now) none r.layer)
  | updateComment {id : String} {edit : CommentEdit} {c : Comment} (found : view.viewComment id = .ok c) :
    Asks s view now (.updateComment id edit) (.upsertComment (edit.apply now c) (some c) c.layer)
  | deleteComment {id : String} {c : Comment} (found : view.viewComment id = .ok c) :
    Asks s view now (.deleteComment id) (.removeComment id)
  | createLayer {r : LayerRequest} {members : List String} {place : Place} (parent : view.viewLayer? r.parent = .ok ())
    (nodes : s.ids view r.nodes = .ok members)
    (placed : place = match r.spot with | some spot => spot.place 0 | none => view.centroid members) :
    Asks s view now (.createLayer r) (.upsertLayer ⟨"", r.name, none, r.parent, ∅, ∅, place, r.color⟩ members)
  | addNodesToLayer {layer : String} {refs members : List String} {l : Layer} (found : view.viewLayer layer = .ok l)
    (nodes : s.ids view refs = .ok members) :
    Asks s view now (.addNodesToLayer layer refs) (.addToLayer layer members)
  | removeNodesFromLayer {layer : String} {refs members : List String} {l : Layer} (found : view.viewLayer layer = .ok l)
    (nodes : s.ids view refs = .ok members) :
    Asks s view now (.removeNodesFromLayer layer refs) (.removeFromLayer layer members)
  | removeLayer {layer : String} {l : Layer} (found : view.viewLayer layer = .ok l) :
    Asks s view now (.removeLayer layer) (.removeLayer layer true)

variable {a : Action} {s : References} {view : Board} {now : UInt64} {m : Mutation}

theorem asks_of_mutation (h : a.mutation s view now = .ok m) : Asks s view now a m := by
  unfold mutation at h
  cases a with
  | addNode r => cases h
  | addPlaceholder r => cases h
  | removeNode ref =>
    obtain ⟨n, hn, h⟩ := bind_eq_ok h
    cases h
    exact .removeNode hn
  | connectPins r =>
    obtain ⟨w, hw, h⟩ := bind_eq_ok h
    cases h
    exact .connectPins hw
  | disconnectPins r =>
    obtain ⟨w, hw, h⟩ := bind_eq_ok h
    cases h
    exact .disconnectPins hw
  | updateNodePin ref pin value =>
    obtain ⟨n, hn, h⟩ := bind_eq_ok h
    obtain ⟨found, hfound, h⟩ := bind_eq_ok h
    cases h
    exact .updateNodePin hn hfound
  | moveNode ref spot layer =>
    obtain ⟨n, hn, h⟩ := bind_eq_ok h
    obtain ⟨_, hlayer, h⟩ := bind_eq_ok h
    cases h
    exact .moveNode hn hlayer
  | createVariable r =>
    obtain ⟨v, hv, h⟩ := bind_eq_ok h
    cases h
    exact .createVariable hv
  | updateVariable id edit =>
    obtain ⟨v, hv, h⟩ := bind_eq_ok h
    cases h
    exact .updateVariable hv
  | deleteVariable id =>
    obtain ⟨u, hu, h⟩ := bind_eq_ok h
    obtain ⟨v, hv⟩ := exists_of_discard hu
    cases h
    exact .deleteVariable hv
  | createComment r =>
    obtain ⟨_, hlayer, h⟩ := bind_eq_ok h
    cases h
    exact .createComment hlayer
  | updateComment id edit =>
    obtain ⟨c, hc, h⟩ := bind_eq_ok h
    cases h
    exact .updateComment hc
  | deleteComment id =>
    obtain ⟨u, hu, h⟩ := bind_eq_ok h
    obtain ⟨c, hc⟩ := exists_of_discard hu
    cases h
    exact .deleteComment hc
  | createLayer r =>
    obtain ⟨_, hparent, h⟩ := bind_eq_ok h
    obtain ⟨members, hmembers, h⟩ := bind_eq_ok h
    cases h
    exact .createLayer hparent hmembers rfl
  | addNodesToLayer layer refs =>
    obtain ⟨u, hu, h⟩ := bind_eq_ok h
    obtain ⟨l, hl⟩ := exists_of_discard hu
    obtain ⟨members, hmembers, h⟩ := bind_eq_ok h
    cases h
    exact .addNodesToLayer hl hmembers
  | removeNodesFromLayer layer refs =>
    obtain ⟨u, hu, h⟩ := bind_eq_ok h
    obtain ⟨l, hl⟩ := exists_of_discard hu
    obtain ⟨members, hmembers, h⟩ := bind_eq_ok h
    cases h
    exact .removeNodesFromLayer hl hmembers
  | removeLayer layer =>
    obtain ⟨u, hu, h⟩ := bind_eq_ok h
    obtain ⟨l, hl⟩ := exists_of_discard hu
    cases h
    exact .removeLayer hl

theorem proper_mutation (h : a.mutation s view now = .ok m) : m.Proper ∧ m.makesNode = false := by
  cases asks_of_mutation h with
  | updateNodePin => exact ⟨⟨_, _, _, rfl, rfl⟩, rfl⟩
  | createComment | updateComment | removeLayer => exact ⟨rfl, rfl⟩
  | createLayer => exact ⟨⟨rfl, rfl, rfl⟩, rfl⟩
  | _ => exact ⟨trivial, rfl⟩

end Action

end Workboard
