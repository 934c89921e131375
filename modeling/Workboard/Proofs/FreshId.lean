import Workboard.Board.FreshId
import Workboard.Proofs.Copies

/-! Fresh ids are fresh.

The search for an id passes over numbers that are taken, and the ids of different numbers differ; so it
cannot pass over more numbers than there are ids in use. -/

namespace Workboard

/-- The id of a number. -/
def numberedId (stem : String) (n : Nat) : String := s!"{stem}-{n}"

theorem numberedId_inj {stem : String} {m n : Nat} (h : numberedId stem m = numberedId stem n) : m = n := by
  unfold numberedId at h
  rw [String.append_right_inj] at h
  exact Nat.repr_injective h

/-- The search ends at an id that is not taken, or has passed over every number that it could. -/
theorem freshFrom_free_or_all (taken : KeySet) (stem : String) (fuel n : Nat) :
    taken.contains (freshFrom taken stem fuel n) = false ∨
      ∀ i ≤ fuel, taken.contains (numberedId stem (n + i)) = true := by
  induction fuel generalizing n with
  | zero =>
    cases h : taken.contains (numberedId stem n) with
    | false => exact Or.inl h
    | true =>
      refine Or.inr fun i hi => ?_
      obtain rfl := Nat.le_zero.mp hi
      exact h
  | succ fuel ih =>
    unfold freshFrom
    split
    · rename_i hn
      rcases ih (n + 1) with h | h
      · exact Or.inl h
      · refine Or.inr fun i hi => ?_
        cases i with
        | zero => exact hn
        | succ i =>
          rw [show n + (i + 1) = n + 1 + i by omega]
          exact h i (by omega)
    · rename_i hn
      exact Or.inl (Bool.eq_false_iff.mpr hn)

/-- Not all of so many numbers can be taken. -/
theorem not_all_taken (taken : KeySet) (stem : String) (n : Nat) :
    ¬ ∀ i ≤ taken.size, taken.contains (numberedId stem (n + i)) = true := by
  intro h
  have hnodup : ((List.range (taken.size + 1)).map fun i => numberedId stem (n + i)).Nodup := by
    refine List.nodup_range.map fun i j hij => ?_
    have := numberedId_inj hij
    omega
  have hsub : ((List.range (taken.size + 1)).map fun i => numberedId stem (n + i)) ⊆ taken.toList := by
    intro id hid
    obtain ⟨i, hi, rfl⟩ := List.mem_map.mp hid
    have hi := List.mem_range.mp hi
    exact KeySet.mem_toList.mpr (h i (by omega))
  have hlen := (List.subperm_of_subset hnodup hsub).length_le
  rw [List.length_map, List.length_range, ← KeySet.size_eq_length] at hlen
  omega

theorem freshId_free (taken : KeySet) (stem : String) : taken.contains (freshId taken stem) = false := by
  rcases freshFrom_free_or_all taken stem taken.size (taken.size + 1) with h | h
  · exact h
  · exact absurd h (not_all_taken taken stem (taken.size + 1))

namespace Board

variable {b : Board}

/-- A fresh id is none that is in use. -/
theorem freshId_notMem_usedIds (b : Board) (stem : String) : freshId b.takenIds stem ∉ b.usedIds := by
  intro h
  have htaken : b.takenIds.contains (freshId b.takenIds stem) = true := (KeySet.contains_ofList _ _).mpr h
  rw [freshId_free] at htaken
  cases htaken

theorem nodeId_mem_usedIds {x : String} (h : x ∈ b.nodeIds) : x ∈ b.usedIds := by
  obtain ⟨n, hn, rfl⟩ := List.mem_map.mp h
  have hmem : n.id ∈ b.allNodes.flatMap fun n => n.id :: n.pins.keys :=
    List.mem_flatMap.mpr ⟨n, hn, List.mem_cons_self⟩
  exact List.mem_append_left _ (List.mem_append_left _ (List.mem_append_left _ hmem))

theorem layerId_mem_usedIds {layer : String} {l : Layer} (h : b.layers.get? layer = some l) : l.id ∈ b.usedIds := by
  have hmem : l.id ∈ b.layers.values.flatMap fun l => l.id :: l.pins.keys :=
    List.mem_flatMap.mpr ⟨l, KeyMap.mem_values.mpr ⟨layer, h⟩, List.mem_cons_self⟩
  exact List.mem_append_left _ (List.mem_append_left _ (List.mem_append_right _ hmem))

/-- No copy is stored under a fresh id. -/
theorem Keyed.copy?_freshId (hb : b.Keyed) (stem : String) (shelf : Option String) :
    b.copy? shelf (freshId b.takenIds stem) = none := by
  cases h : b.copy? shelf (freshId b.takenIds stem) with
  | none => rfl
  | some n => exact absurd (nodeId_mem_usedIds (mem_nodeIds_of_copy? hb h)) (b.freshId_notMem_usedIds stem)

/-- No layer is stored under a fresh id, if the layers are stored under their own ids. -/
theorem contains_layers_freshId (hb : b.layers.Keyed Layer.id) (stem : String) :
    b.layers.contains (freshId b.takenIds stem) = false := by
  rw [KeyMap.contains_eq_false_iff]
  cases h : b.layers.get? (freshId b.takenIds stem) with
  | none => rfl
  | some l =>
    have hused := layerId_mem_usedIds h
    rw [hb _ l h] at hused
    exact absurd hused (b.freshId_notMem_usedIds stem)

end Board

end Workboard
