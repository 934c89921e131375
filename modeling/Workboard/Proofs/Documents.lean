import Mathlib
import Workboard.Proofs.Keyed
import Workboard.Search.Index

/-! What the documents of a board are made of.

The names around a layer that were looked up once are the names around it (`Board.Knows`), so the documents have the names
that the board has (`Board.documents_eq`). Each section of a board gives its documents in the order of ids, so two boards
with the same documents section by section have the same documents (`Board.documents_congr`). -/

namespace Workboard

/-- What elements give in the order of their ids is told by what each of them gives. -/
theorem map_mergeSort_congr {α β γ : Type} {id : α → String} {id' : γ → String} {f : α → β} {g : γ → β} {l : List α}
    {l' : List γ} (h : l.map (fun a => (id a, f a)) = l'.map fun c => (id' c, g c)) :
    (l.mergeSort fun a b => id a ≤ id b).map f = (l'.mergeSort fun a b => id' a ≤ id' b).map g := by
  have hsort {δ : Type} (id : δ → String) (f : δ → β) (l : List δ) : (l.mergeSort fun a b => id a ≤ id b).map f =
      ((l.map fun a => (id a, f a)).mergeSort fun x y => x.1 ≤ y.1).map (·.2) := by
    rw [← List.map_mergeSort (r := fun a b => id a ≤ id b) fun _ _ _ _ => rfl, List.map_map]
    rfl
  rw [hsort id, hsort id', h]

namespace Board

open Search

variable {b b' : Board}

/-! ### The names around a layer -/

/-- The names of the layers that something in a layer is inside of. -/
def pathOf (b : Board) (layer : Option String) : List String := layer.elim [] b.layerPathSoFar

/-- The names that were looked up are those of the board. -/
def Knows (b : Board) (known : KeyMap (List String)) : Prop :=
  ∀ layer path, known.get? layer = some path → path = b.layerPathSoFar layer

theorem knows_empty (b : Board) : b.Knows ∅ := by
  intro layer path h
  cases h

variable {known : KeyMap (List String)}

theorem Knows.recallPath (h : b.Knows known) (layer : Option String) :
    (b.recallPath known layer).1 = b.pathOf layer ∧ b.Knows (b.recallPath known layer).2 := by
  cases layer with
  | none => exact ⟨rfl, h⟩
  | some layer =>
    unfold Board.recallPath
    dsimp only
    split
    · rename_i path hpath
      exact ⟨h layer path hpath, h⟩
    · refine ⟨rfl, fun other path hpath => ?_⟩
      rw [KeyMap.get?_insert] at hpath
      split at hpath
      · rename_i hsame
        rw [← hsame]
        exact (Option.some.inj hpath).symm
      · exact h other path hpath

theorem Knows.collect {α : Type} (h : b.Knows known) (layer : α → Option String) (give : α → List String → List Document)
    (l : List α) : (b.collect layer give known l).1 = l.flatMap (fun a => give a (b.pathOf (layer a))) ∧
      b.Knows (b.collect layer give known l).2 := by
  induction l generalizing known with
  | nil => exact ⟨rfl, h⟩
  | cons a r ih =>
    obtain ⟨hpath, hknows⟩ := h.recallPath (layer a)
    obtain ⟨hmore, hlast⟩ := ih hknows
    refine ⟨?_, hlast⟩
    rw [List.flatMap_cons, ← hpath, ← hmore]
    rfl

/-- What was looked up before makes no difference. -/
theorem documents_eq (b : Board) (orders : Orders) : b.documents orders =
    (((b.nodesIn orders).mergeSort fun m n => m.id ≤ n.id).flatMap fun n => n.documents (orders.pins n.id) (b.pathOf n.layer))
      ++ ((b.layers.entriesIn orders.layers).mergeSort fun e f => e.2.id ≤ f.2.id).map
        (fun e => e.2.document (orders.members e.1) (b.pathOf e.2.parent))
      ++ ((b.comments.valuesIn orders.comments).mergeSort fun c d => c.id ≤ d.id).map (fun c => c.document (b.pathOf c.layer))
      ++ ((b.vars.valuesIn orders.vars).mergeSort fun v w => v.id ≤ w.id).map Variable.document := by
  obtain ⟨hnodes, hknows⟩ := (knows_empty b).collect Node.layer (fun n => n.documents (orders.pins n.id))
    ((b.nodesIn orders).mergeSort fun m n => m.id ≤ n.id)
  obtain ⟨hlayers, hknows⟩ := hknows.collect (fun e : String × Layer => e.2.parent)
    (fun e path => [e.2.document (orders.members e.1) path])
    ((b.layers.entriesIn orders.layers).mergeSort fun e f => e.2.id ≤ f.2.id)
  obtain ⟨hcomments, -⟩ := hknows.collect Comment.layer (fun c path => [c.document path])
    ((b.comments.valuesIn orders.comments).mergeSort fun c d => c.id ≤ d.id)
  rw [List.map_eq_flatMap, List.map_eq_flatMap, ← hnodes, ← hlayers, ← hcomments]
  rfl

theorem documents_congr {orders : Orders}
    (hnodes : (b.nodesIn orders).map (fun n => (n.id, n.documents (orders.pins n.id) (b.pathOf n.layer))) =
      (b'.nodesIn orders).map fun n => (n.id, n.documents (orders.pins n.id) (b'.pathOf n.layer)))
    (hlayers : (b.layers.entriesIn orders.layers).map
        (fun e => (e.2.id, e.2.document (orders.members e.1) (b.pathOf e.2.parent))) =
      (b'.layers.entriesIn orders.layers).map fun e => (e.2.id, e.2.document (orders.members e.1) (b'.pathOf e.2.parent)))
    (hcomments : (b.comments.valuesIn orders.comments).map (fun c => (c.id, c.document (b.pathOf c.layer))) =
      (b'.comments.valuesIn orders.comments).map fun c => (c.id, c.document (b'.pathOf c.layer)))
    (hvars : (b.vars.valuesIn orders.vars).map (fun v => (v.id, v.document)) =
      (b'.vars.valuesIn orders.vars).map fun v => (v.id, v.document)) :
    b.documents orders = b'.documents orders := by
  rw [documents_eq, documents_eq, List.flatMap_def, List.flatMap_def, map_mergeSort_congr hnodes, map_mergeSort_congr hlayers,
    map_mergeSort_congr hcomments, map_mergeSort_congr hvars]

end Board

end Workboard
