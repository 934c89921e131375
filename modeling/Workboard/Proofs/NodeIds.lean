import Workboard.Proofs.FreshId
import Workboard.Proofs.Proper
import Workboard.Proofs.Refusal
import Workboard.Proofs.SoundMutation

/-! The keys and ids of nodes.

`Board.Labelled P` says that every copy of a node is stored under a key that has the relation `P` to its id. A change
stores nodes under their ids only, and makes none but under a fresh id; so a mutation that an action stands for keeps
such a relation (`Board.Labelled.execute`), and the nodes of a keyed board stay keyed (`Board.Keyed.execute`). -/

namespace Workboard.Board

variable {P : String → String → Prop} {b : Board}

/-- Every copy of a node has a key and an id that go together. -/
def Labelled (P : String → String → Prop) (b : Board) : Prop := ∀ shelf key n, b.copy? shelf key = some n → P key n.id

theorem Labelled.node (h : b.Labelled P) {key : String} {n : Node} (hn : b.node? key = some n) : P key n.id := by
  obtain ⟨shelf, hn⟩ := copy?_of_node? hn
  exact h shelf key n hn

/-! ### Elementary changes -/

theorem Labelled.editNode (h : b.Labelled P) (id : String) {f : Node → Node}
    (hf : ∀ n, P id n.id → P id (f n).id) : (b.editNode id f).Labelled P := by
  intro shelf key n hn
  rw [copy?_editNode] at hn
  split at hn
  · rename_i hkey
    subst hkey
    obtain ⟨m, hm, rfl⟩ := Option.map_eq_some_iff.mp hn
    exact hf m (h shelf _ m hm)
  · exact h shelf key n hn

theorem Labelled.editNodes (h : b.Labelled P) (ids : List String) {f : Node → Node} (hf : ∀ n, (f n).id = n.id) :
    (b.editNodes ids f).Labelled P :=
  board_editNodes (P := Labelled P) h (fun _ id h => h.editNode id fun n hn => by rwa [hf]) ids

theorem Labelled.dropNode (h : b.Labelled P) (id : String) : (b.dropNode id).Labelled P := by
  intro shelf key n hn
  rw [copy?_dropNode] at hn
  split at hn
  · cases hn
  · exact h shelf key n hn

theorem Labelled.storeNode (h : b.Labelled P) {n : Node} (hn : P n.id n.id) : (b.storeNode n).Labelled P := by
  intro shelf key m hm
  rcases copy?_storeNode_cases hm with hm | ⟨rfl, rfl⟩
  · exact h shelf key m hm
  · exact hn

section
variable (hP : ∀ key id, P key id → P id id)
include hP

theorem Labelled.assignLayer (h : b.Labelled P) (id : String) (layer : Option String) :
    (b.assignLayer id layer).Labelled P := by
  cases hn : b.node? id with
  | none =>
    rw [assignLayer_of_node?_eq_none hn]
    exact h
  | some n =>
    have hid := hP _ _ (h.node hn)
    intro shelf key m hm
    rcases copy?_assignLayer_cases hn hm with ⟨hm, -⟩ | ⟨rfl, rfl⟩
    · exact h shelf key m hm
    · exact hid

theorem Labelled.assignLayers (h : b.Labelled P) (ids : List String) (layer : Option String) :
    (b.assignLayers ids layer).Labelled P :=
  board_assignLayers (P := Labelled P) h (fun _ id h => h.assignLayer hP id layer) ids

end

/-! ### Layers -/

theorem Labelled.storeLayer (h : b.Labelled P) {l : Layer} (hl : l.nodes = ∅) : (b.storeLayer l).Labelled P := by
  intro shelf key n hn
  cases shelf with
  | none => exact h none key n hn
  | some layer =>
    rw [copy?_storeLayer_some] at hn
    split at hn
    · rw [nodes_storedLayer] at hn
      split at hn
      · rename_i existing he
        exact h _ key n (copy?_some_eq_some.mpr ⟨existing, he, hn⟩)
      · rw [hl] at hn
        cases hn
    · exact h _ key n hn

theorem Labelled.dissolveLayer (h : b.Labelled P) (id : String) (parent : Option String) :
    (b.dissolveLayer id parent).Labelled P := by
  intro shelf key n hn
  cases shelf with
  | none => exact h none key n hn
  | some layer =>
    rw [copy?_dissolveLayer_some] at hn
    split at hn
    · cases hn
    · exact h _ key n hn

/-! ### Mutations -/

theorem Labelled.removeNode (h : b.Labelled P) (id : String) : (b.removeNode id).board.Labelled P :=
  Effect.board_given h fun n _ =>
    (h.dropNode id).editNodes ((b.dropNode id).neighbours n.pins.keys) fun _ => rfl

theorem Labelled.removeNodes (h : b.Labelled P) (ids : List String) : (b.removeNodes ids).1.Labelled P :=
  board_removeNodes (P := Labelled P) h fun _ id _ h => h.removeNode id

/-- A mutation that an action stands for brings no ids of nodes but fresh ones. -/
theorem Labelled.perform (hP : ∀ key id, P key id → P id id)
    (h : b.Labelled P) {m : Mutation} (hm : m.Proper)
    (hfresh : m.makesNode = true → P (freshId b.takenIds "node") (freshId b.takenIds "node")) :
    (b.perform m).board.Labelled P := by
  have ends : ∀ (w : Wire) f g,
      ((b.editNode w.fromNode (·.editPin w.fromPin f)).editNode w.toNode (·.editPin w.toPin g)).Labelled P :=
    fun w f g => by
      refine (h.editNode _ fun n hn => ?_).editNode _ fun n hn => ?_
      · exact hn
      · exact hn
  have hmoved : ∀ id goal, (b.editNode id fun n => { n with place := goal }).Labelled P := fun id _ => h.editNode id fun _ hn => hn
  refine board_perform (P := Labelled P) fun b' hb' => ?_
  cases hb' with
  | refused | upsertVariable | removeVariable | upsertComment | removeComment => exact h
  | addNode => exact h.storeNode (hfresh rfl)
  | removeNode => exact h.removeNode _
  | connect | disconnect => exact ends _ _ _
  | @updateNode _ _ current hnode hsame =>
    obtain ⟨old, pin, value, rfl, rfl⟩ := hm
    have hbeq : (old == current) = true := by simpa [bne] using hsame
    refine h.editNode _ fun _ _ => ?_
    show P old.id old.id
    rw [(Node.parts_of_beq hbeq).1]
    exact hP _ _ (h.node hnode)
  | moveNode => exact hmoved _ _
  | moveInto => exact (hmoved _ _).assignLayer hP _ _
  | upsertLayer => exact (h.storeLayer hm.2.1).assignLayers hP _ _
  | addToLayer | removeFromLayer => exact h.assignLayers hP _ _
  | removeLayer => exact (h.assignLayers hP _ _).dissolveLayer _ _
  | removeWhole | removePart => cases hm

theorem Labelled.execute (hP : ∀ key id, P key id → P id id) (h : b.Labelled P) {m : Mutation} (hm : m.Proper)
    (hfresh : m.makesNode = true → P (freshId b.takenIds "node") (freshId b.takenIds "node")) :
    (b.execute m).board.Labelled P := board_execute (P := Labelled P) (h.perform hP hm hfresh) fun _ h => h

theorem Keyed.execute (hb : b.Keyed) {m : Mutation} (hm : m.Proper) : (b.execute m).board.Keyed := by
  have h : b.Labelled fun key id => id = key := keyed_iff.mp hb
  exact keyed_iff.mpr (h.execute (P := fun key id => id = key) (fun _ _ _ => rfl) hm fun _ => rfl)

end Workboard.Board
