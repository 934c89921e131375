import Mathlib
import Workboard.KeyMap

/-! Maps whose values are stored under their own ids.

`KeyMap.Keyed` says that each value's id is its key. It is kept by every update that stores a value
under its id or leaves the ids as they are. -/

namespace Workboard

namespace KeyMap

variable {α β : Type} {m : KeyMap α} {k : String} {v : α}

theorem contains_iff : m.contains k = true ↔ ∃ v, m.get? k = some v := Option.isSome_iff_exists

theorem contains_eq_false_iff : m.contains k = false ↔ m.get? k = none := by
  unfold contains
  cases m.get? k <;> simp

theorem mem_values : v ∈ m.values ↔ ∃ k, m.get? k = some v := by
  unfold values
  constructor
  · intro h
    obtain ⟨e, he, rfl⟩ := List.mem_map.mp h
    exact ⟨e.1, get?_eq_some_iff_mem.mpr he⟩
  · rintro ⟨k, h⟩
    exact List.mem_map.mpr ⟨(k, v), get?_eq_some_iff_mem.mp h, rfl⟩

theorem mem_keys : k ∈ m.keys ↔ m.contains k = true := by
  unfold keys
  rw [contains_iff]
  constructor
  · intro h
    obtain ⟨e, he, rfl⟩ := List.mem_map.mp h
    exact ⟨e.2, get?_eq_some_iff_mem.mpr he⟩
  · rintro ⟨v, h⟩
    exact List.mem_map.mpr ⟨(k, v), get?_eq_some_iff_mem.mp h, rfl⟩

theorem keys_mapValues (f : String → α → β) (m : KeyMap α) : (m.mapValues f).keys = m.keys := by
  unfold keys mapValues
  rw [List.map_map]
  rfl

theorem map_values (m : KeyMap α) (g : α → β) : m.values.map g = (m.mapValues fun _ => g).values := by
  unfold values mapValues
  rw [List.map_map, List.map_map]
  rfl

theorem contains_insert {j : String} : (m.insert k v).contains j = (k = j || m.contains j) := by
  unfold contains
  rw [get?_insert]
  by_cases h : k = j <;> simp [h]

theorem mem_of_get?_ofList {l : List (String × α)} (h : (ofList l).get? k = some v) : (k, v) ∈ l := by
  suffices main : ∀ m : KeyMap α, (l.foldl (fun m e => m.insert e.1 e.2) m).get? k = some v → (k, v) ∈ l ∨ m.get? k = some v by
    rcases main empty h with h | h
    · exact h
    · cases h
  clear h
  induction l with
  | nil => exact fun m h => Or.inr h
  | cons e l ih =>
    intro m h
    rcases ih _ h with h | h
    · exact Or.inl (List.mem_cons_of_mem e h)
    · rw [get?_insert] at h
      split at h
      · rename_i hk
        cases h
        exact Or.inl (by rw [← hk]; exact List.mem_cons_self)
      · exact Or.inr h

theorem nodup_keys (m : KeyMap α) : (m.entries.map (·.1)).Nodup :=
  List.pairwise_map.mpr (m.ordered.imp fun h => String.ne_of_lt h)

instance [BEq α] [LawfulBEq α] : LawfulBEq (KeyMap α) where
  eq_of_beq {m n} h := by
    obtain ⟨l, hl⟩ := m
    obtain ⟨r, hr⟩ := n
    obtain rfl : l = r := eq_of_beq h
    rfl
  rfl {m} := beq_self_eq_true m.entries

/-- Every value is stored under its own id. -/
def Keyed (id : α → String) (m : KeyMap α) : Prop := ∀ k v, m.get? k = some v → id v = k

section Keyed
variable {id : α → String}

theorem keyed_iff_entries : m.Keyed id ↔ ∀ e ∈ m.entries, id e.2 = e.1 := by
  constructor
  · exact fun h e he => h e.1 e.2 (get?_eq_some_iff_mem.mpr he)
  · exact fun h k v hv => h (k, v) (get?_eq_some_iff_mem.mp hv)

instance : Decidable (m.Keyed id) := decidable_of_iff _ keyed_iff_entries.symm

theorem Keyed.empty : Keyed id (∅ : KeyMap α) := fun k v h => by
  rw [show (∅ : KeyMap α).get? k = none from rfl] at h
  cases h

theorem Keyed.insert (h : m.Keyed id) (v : α) : (m.insert (id v) v).Keyed id := by
  intro k w hw
  rw [get?_insert] at hw
  split at hw
  · rename_i hk
    cases hw
    exact hk
  · exact h k w hw

theorem Keyed.erase (h : m.Keyed id) (k : String) : (m.erase k).Keyed id := by
  intro j w hw
  rw [get?_erase] at hw
  split at hw
  · cases hw
  · exact h j w hw

theorem Keyed.mapValues {f : String → α → α} (h : m.Keyed id) (hf : ∀ k v, id (f k v) = id v) :
    (m.mapValues f).Keyed id := by
  intro k w hw
  rw [get?_mapValues] at hw
  obtain ⟨v, hv, rfl⟩ := Option.map_eq_some_iff.mp hw
  rw [hf]
  exact h k v hv

theorem Keyed.modify {f : α → α} (h : m.Keyed id) (k : String) (hf : ∀ v, id (f v) = id v) :
    (m.modify k f).Keyed id := by
  refine h.mapValues fun j v => ?_
  split
  · exact hf v
  · rfl

/-- A map that is made of values, each under its own id. -/
theorem Keyed.ofList (l : List α) : (ofList (l.map fun v => (id v, v))).Keyed id := by
  suffices main : ∀ m : KeyMap α, m.Keyed id →
      ((l.map fun v => (id v, v)).foldl (fun m e => m.insert e.1 e.2) m).Keyed id from main _ Keyed.empty
  induction l with
  | nil => exact fun m h => h
  | cons v l ih => exact fun m h => ih _ (h.insert v)

/-- The value of an id is found among the values, too. -/
theorem Keyed.find?_values (h : m.Keyed id) (k : String) : m.values.find? (id · = k) = m.get? k := by
  cases hk : m.get? k with
  | none =>
    refine List.find?_eq_none.mpr fun v hv => ?_
    obtain ⟨j, hj⟩ := mem_values.mp hv
    rw [decide_eq_true_eq, h j v hj]
    rintro rfl
    rw [hk] at hj
    cases hj
  | some v =>
    have hv : v ∈ m.values := mem_values.mpr ⟨k, hk⟩
    have hsome : (m.values.find? (id · = k)).isSome = true :=
      List.find?_isSome.mpr ⟨v, hv, decide_eq_true (h k v hk)⟩
    obtain ⟨w, hw⟩ := Option.isSome_iff_exists.mp hsome
    obtain ⟨j, hj⟩ := mem_values.mp (List.mem_of_find?_eq_some hw)
    have hid : id w = k := by simpa using List.find?_some hw
    have hjk : j = k := (h j w hj).symm.trans hid
    subst hjk
    rw [hw, ← hj, hk]

theorem Keyed.nodup_map_values (h : m.Keyed id) : (m.values.map id).Nodup := by
  have hkeys : m.values.map id = m.entries.map (·.1) := by
    rw [values, List.map_map]
    exact List.map_congr_left fun e he => keyed_iff_entries.mp h e he
  rw [hkeys]
  exact m.nodup_keys

theorem Keyed.nodup_map_valuesIn (h : m.Keyed id) (order : List String) : ((m.valuesIn order).map id).Nodup :=
  ((perm_valuesIn order m).map id).nodup_iff.mpr h.nodup_map_values

theorem Keyed.eq_of_id {w : α} (h : m.Keyed id) (hv : v ∈ m.values) (hw : w ∈ m.values) (hid : id v = id w) : v = w :=
  List.inj_on_of_nodup_map h.nodup_map_values hv hw hid

end Keyed

end KeyMap

section
variable {α : Type} {id : α → String} {l : List α}

/-- Elements that were sorted by their ids ascend. -/
theorem pairwise_le_mergeSort (id : α → String) (l : List α) :
    (l.mergeSort fun a b => id a ≤ id b).Pairwise fun a b => id a ≤ id b := by
  have hsorted : (l.mergeSort fun a b => id a ≤ id b).Pairwise fun a b => decide (id a ≤ id b) = true := by
    refine List.pairwise_mergeSort (fun a b c hab hbc => ?_) (fun a b => ?_) l
    · exact decide_eq_true (le_trans (of_decide_eq_true hab) (of_decide_eq_true hbc))
    · simpa using le_total (id a) (id b)
  exact hsorted.imp of_decide_eq_true

theorem pairwise_lt_mergeSort (h : (l.map id).Nodup) :
    (l.mergeSort fun a b => id a ≤ id b).Pairwise fun a b => id a < id b := by
  have hnodup : ((l.mergeSort fun a b => id a ≤ id b).map id).Nodup := ((List.mergeSort_perm l _).map id).nodup_iff.mpr h
  exact ((pairwise_le_mergeSort id l).and (List.pairwise_map.mp hnodup)).imp fun h => lt_of_le_of_ne h.1 h.2

/-- Where all ids are different it does not matter in which order the elements were before they are sorted. -/
theorem mergeSort_eq_of_perm {l' : List α} (hperm : l.Perm l') (h : (l.map id).Nodup) :
    (l.mergeSort fun a b => id a ≤ id b) = l'.mergeSort fun a b => id a ≤ id b := by
  have h' : (l'.map id).Nodup := (hperm.map id).nodup_iff.mp h
  have hsorted : (l.mergeSort fun a b => id a ≤ id b).Perm (l'.mergeSort fun a b => id a ≤ id b) :=
    (List.mergeSort_perm l _).trans (hperm.trans (List.mergeSort_perm l' _).symm)
  exact hsorted.eq_of_pairwise (fun a b _ _ hab hba => absurd (hab.trans hba) (lt_irrefl _)) (pairwise_lt_mergeSort h)
    (pairwise_lt_mergeSort h')

end

namespace KeySet

instance : LawfulBEq KeySet where
  eq_of_beq {s t} h := by
    obtain ⟨m⟩ := s
    obtain ⟨n⟩ := t
    obtain rfl : m = n := eq_of_beq h
    rfl
  rfl {s} := beq_self_eq_true s.index

theorem mem_toList {s : KeySet} {k : String} : k ∈ s.toList ↔ s.contains k = true := KeyMap.mem_keys

theorem size_eq_length (s : KeySet) : s.size = s.toList.length := by
  unfold size toList KeyMap.size KeyMap.keys
  rw [List.length_map]

/-- The set with all of the given members. -/
def insertAll (s : KeySet) (l : List String) : KeySet := l.foldl insert s

theorem contains_insertAll (s : KeySet) (l : List String) (k : String) :
    (s.insertAll l).contains k = true ↔ k ∈ l ∨ s.contains k = true := by
  unfold insertAll
  induction l generalizing s with
  | nil => simp
  | cons j l ih =>
    rw [List.foldl_cons, ih, contains_insert]
    simp only [Bool.or_eq_true, decide_eq_true_eq, List.mem_cons]
    tauto

theorem contains_ofList (l : List String) (k : String) : (ofList l).contains k = true ↔ k ∈ l := by
  have hempty : KeySet.empty.contains k = false := rfl
  show (empty.insertAll l).contains k = true ↔ k ∈ l
  rw [contains_insertAll, hempty]
  simp

end KeySet

end Workboard
