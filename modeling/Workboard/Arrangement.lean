/-! The order in which a hash map gives its entries.

Such a map has no order of its own: two maps with the same entries may give them in different orders, and so may the
same program run twice. Where an answer depends on the order it is an argument, a list of keys. The entries with these
keys come first, in the order of the list, and all others follow as they stand. No entry is lost (`arranged_perm`), and
every order can be had (`arranged_keys`). -/

namespace Workboard

variable {κ α β : Type} [DecidableEq κ]

/-- The values of entries, those with the keys of a list first. -/
def arranged : List κ → List (κ × α) → List α
  | [], l => l.map (·.2)
  | k :: order, l => (l.filter (·.1 = k)).map (·.2) ++ arranged order (l.filter (·.1 ≠ k))

theorem arranged_perm (order : List κ) (l : List (κ × α)) : (arranged order l).Perm (l.map (·.2)) := by
  induction order generalizing l with
  | nil => exact .refl _
  | cons k order ih =>
    have hsplit : (l.filter (·.1 = k) ++ l.filter (·.1 ≠ k)).Perm l := by
      simpa using List.filter_append_perm (fun e => decide (e.1 = k)) l
    refine .trans ?_ (hsplit.map (·.2))
    rw [arranged, List.map_append]
    exact (ih _).append_left _

theorem mem_arranged {order : List κ} {l : List (κ × α)} {v : α} : v ∈ arranged order l ↔ ∃ k, (k, v) ∈ l := by
  rw [(arranged_perm order l).mem_iff, List.mem_map]
  constructor
  · rintro ⟨e, he, rfl⟩
    exact ⟨e.1, he⟩
  · rintro ⟨k, hk⟩
    exact ⟨(k, v), hk, rfl⟩

/-- What is made of every value can be made before the values are put in order. -/
theorem arranged_map (g : α → β) (order : List κ) (l : List (κ × α)) :
    arranged order (l.map fun e => (e.1, g e.2)) = (arranged order l).map g := by
  induction order generalizing l with
  | nil =>
    rw [arranged, arranged, List.map_map, List.map_map]
    rfl
  | cons k order ih =>
    rw [arranged, arranged, List.map_append, List.filter_map, List.filter_map, ih, List.map_map, List.map_map]
    rfl

/-- Entries with different keys can be had in any order, by the list of their keys. -/
theorem arranged_keys {l m : List (κ × α)} (h : l.Perm m) (hkeys : (m.map (·.1)).Nodup) :
    arranged (m.map (·.1)) l = m.map (·.2) := by
  induction m generalizing l with
  | nil =>
    rw [h.eq_nil]
    rfl
  | cons e m ih =>
    obtain ⟨hnew, hrest⟩ := List.nodup_cons.mp hkeys
    have hother : ∀ f ∈ m, f.1 ≠ e.1 := fun f hf he => hnew (List.mem_map.mpr ⟨f, hf, he⟩)
    have hfirst : l.filter (·.1 = e.1) = [e] := by
      have hnone : m.filter (·.1 = e.1) = [] := List.filter_eq_nil_iff.mpr fun f hf => by simp [hother f hf]
      have hperm := h.filter (·.1 = e.1)
      rw [List.filter_cons_of_pos (by simp), hnone] at hperm
      exact hperm.eq_singleton
    have hkept : (l.filter (·.1 ≠ e.1)).Perm m := by
      have hall : m.filter (·.1 ≠ e.1) = m := List.filter_eq_self.mpr fun f hf => by simp [hother f hf]
      have hperm := h.filter (·.1 ≠ e.1)
      rwa [List.filter_cons_of_neg (by simp), hall] at hperm
    rw [List.map_cons, arranged, hfirst, ih hkept hrest]
    rfl

/-- The members of a list, those at the listed positions first. -/
def rearranged (order : List Nat) (l : List α) : List α := arranged order (l.zipIdx.map fun (a, i) => (i, a))

theorem rearranged_perm (order : List Nat) (l : List α) : (rearranged order l).Perm l := by
  have hvalues : (l.zipIdx.map fun (a, i) => (i, a)).map (·.2) = l := by
    rw [List.map_map]
    exact List.zipIdx_map_fst 0 l
  have hperm := arranged_perm order (l.zipIdx.map fun (a, i) => (i, a))
  rwa [hvalues] at hperm

theorem rearranged_map (g : α → β) (order : List Nat) (l : List α) :
    rearranged order (l.map g) = (rearranged order l).map g := by
  rw [rearranged, rearranged, ← arranged_map, List.zipIdx_map, List.map_map, List.map_map]
  rfl

end Workboard
