import Workboard.Arrangement

/-! Finite maps from strings, kept in ascending key order.

A map is the list of its entries with the proof that the keys ascend, so two maps with the same
look-ups are equal (`KeyMap.ext`) and every traversal meets the keys in order. Each update is known by
what it does to a look-up: `get?_insert`, `get?_erase`, `get?_modify`, `get?_mapValues`.

The maps of a board are hash maps, which have no order. Where an answer depends on the order in which one
gives its values, the order is an argument of whatever gives the answer, and the values are `valuesIn` it.
Look-ups of nodes while a board is changed are left in ascending key order; where that decides anything is
said there. -/

namespace Workboard

/-- A map from strings to `α`, its entries in ascending key order. -/
structure KeyMap (α : Type) where
  entries : List (String × α)
  ordered : entries.Pairwise (fun a b => a.1 < b.1)

namespace KeyMap

variable {α β : Type}

/-! ### Look-up in an entry list -/

/-- The value at a key, in an entry list. -/
def find (k : String) : List (String × α) → Option α
  | [] => none
  | e :: r => if e.1 = k then some e.2 else find k r

/-- Puts a value at a key, before the first larger key. -/
def put (k : String) (v : α) : List (String × α) → List (String × α)
  | [] => [(k, v)]
  | e :: r => if k < e.1 then (k, v) :: e :: r else if k = e.1 then (k, v) :: r else e :: put k v r

theorem find_eq_none_of_lt {k : String} {l : List (String × α)} (h : ∀ e ∈ l, k < e.1) : find k l = none := by
  induction l with
  | nil => rfl
  | cons e r ih =>
    have he : e.1 ≠ k := fun x => String.lt_irrefl _ (x ▸ h e (by simp))
    simp only [find, he, if_false]
    exact ih fun x hx => h x (by simp [hx])

theorem mem_put {k : String} {v : α} {x : String × α} {l : List (String × α)} (h : x ∈ put k v l) :
    x = (k, v) ∨ x ∈ l := by
  induction l with
  | nil => exact Or.inl (by simpa [put] using h)
  | cons e r ih =>
    simp only [put] at h
    split at h
    · rcases List.mem_cons.1 h with h | h
      · exact Or.inl h
      · exact Or.inr h
    · split at h
      · rcases List.mem_cons.1 h with h | h
        · exact Or.inl h
        · exact Or.inr (by simp [h])
      · rcases List.mem_cons.1 h with h | h
        · exact Or.inr (by simp [h])
        · rcases ih h with h | h
          · exact Or.inl h
          · exact Or.inr (by simp [h])

theorem lt_of_not_lt_of_ne {a b : String} (h : ¬ a < b) (hne : a ≠ b) : b < a := by
  rcases Decidable.em (b < a) with h' | h'
  · exact h'
  · exact absurd (String.le_antisymm (String.not_lt.1 h') (String.not_lt.1 h)) hne

theorem ordered_put {k : String} {v : α} {l : List (String × α)} (h : l.Pairwise (fun a b => a.1 < b.1)) :
    (put k v l).Pairwise (fun a b => a.1 < b.1) := by
  induction l with
  | nil => simp [put]
  | cons e r ih =>
    obtain ⟨he, hr⟩ := List.pairwise_cons.1 h
    simp only [put]
    split
    · rename_i hk
      refine List.pairwise_cons.2 ⟨fun x hx => ?_, h⟩
      rcases List.mem_cons.1 hx with rfl | hx
      · exact hk
      · exact String.lt_trans hk (he x hx)
    · rename_i hk
      split
      · rename_i hke
        exact List.pairwise_cons.2 ⟨fun x hx => by rw [hke]; exact he x hx, hr⟩
      · rename_i hne
        refine List.pairwise_cons.2 ⟨fun x hx => ?_, ih hr⟩
        rcases mem_put hx with rfl | hx
        · exact lt_of_not_lt_of_ne hk hne
        · exact he x hx

theorem find_put (k j : String) (v : α) (l : List (String × α)) :
    find j (put k v l) = if k = j then some v else find j l := by
  induction l with
  | nil => simp [put, find]
  | cons e r ih =>
    simp only [put]
    split
    · simp [find]
    · split
      · rename_i hke
        subst hke
        by_cases hj : e.1 = j <;> simp [find, hj]
      · rename_i hne
        by_cases hj : e.1 = j
        · have : k ≠ j := fun x => hne (x.trans hj.symm)
          simp [find, hj, this]
        · simp [find, hj, ih]

theorem find_eq_some_iff_mem {k : String} {v : α} {l : List (String × α)}
    (h : l.Pairwise (fun a b => a.1 < b.1)) : find k l = some v ↔ (k, v) ∈ l := by
  induction l with
  | nil => simp [find]
  | cons e r ih =>
    obtain ⟨he, hr⟩ := List.pairwise_cons.1 h
    by_cases hk : e.1 = k
    · simp only [find, hk, if_true, Option.some.injEq, List.mem_cons]
      constructor
      · rintro rfl
        exact Or.inl (by rw [← hk])
      · rintro (h | h)
        · rw [← h]
        · exact absurd (he _ h) (by rw [hk]; exact String.lt_irrefl _)
    · simp only [find, hk, if_false, List.mem_cons]
      rw [ih hr]
      constructor
      · exact Or.inr
      · rintro (h | h)
        · exact absurd (by rw [← h]) hk
        · exact h

theorem eq_of_find_eq {l m : List (String × α)} (hl : l.Pairwise (fun a b => a.1 < b.1))
    (hm : m.Pairwise (fun a b => a.1 < b.1)) (h : ∀ k, find k l = find k m) : l = m := by
  induction l generalizing m with
  | nil =>
    cases m with
    | nil => rfl
    | cons e r => simpa [find] using h e.1
  | cons e r ih =>
    obtain ⟨he, hr⟩ := List.pairwise_cons.1 hl
    cases m with
    | nil => simpa [find] using h e.1
    | cons f s =>
      obtain ⟨hf, hs⟩ := List.pairwise_cons.1 hm
      have hef : e = f := by
        have h1 : e ∈ f :: s := (find_eq_some_iff_mem hm).1
          ((h e.1).symm.trans ((find_eq_some_iff_mem hl).2 (List.mem_cons_self ..)))
        have h2 : f ∈ e :: r := (find_eq_some_iff_mem hl).1
          ((h f.1).trans ((find_eq_some_iff_mem hm).2 (List.mem_cons_self ..)))
        rcases List.mem_cons.1 h1 with h1 | h1
        · exact h1
        · rcases List.mem_cons.1 h2 with h2 | h2
          · exact h2.symm
          · exact absurd (he f h2) (String.lt_asymm (hf e h1))
      subst hef
      congr 1
      refine ih hr hs fun k => ?_
      by_cases hk : e.1 = k
      · subst hk
        rw [find_eq_none_of_lt he, find_eq_none_of_lt hf]
      · have := h k
        simpa [find, hk] using this

/-! ### Maps -/

/-- The map without entries. -/
def empty : KeyMap α := ⟨[], List.Pairwise.nil⟩

instance : EmptyCollection (KeyMap α) := ⟨empty⟩

instance : Inhabited (KeyMap α) := ⟨empty⟩

/-- Two maps are compared entry by entry. -/
instance [BEq α] : BEq (KeyMap α) := ⟨fun m n => m.entries == n.entries⟩

def get? (m : KeyMap α) (k : String) : Option α := find k m.entries

def contains (m : KeyMap α) (k : String) : Bool := (m.get? k).isSome

def keys (m : KeyMap α) : List String := m.entries.map (·.1)

def values (m : KeyMap α) : List α := m.entries.map (·.2)

/-- The values in the order in which a hash map gives them, with those of the listed keys first. -/
def valuesIn (order : List String) (m : KeyMap α) : List α := arranged order m.entries

/-- The entries in the order in which a hash map gives them, with those of the listed keys first. -/
def entriesIn (order : List String) (m : KeyMap α) : List (String × α) := arranged order (m.entries.map fun e => (e.1, e))

def size (m : KeyMap α) : Nat := m.entries.length

def isEmpty (m : KeyMap α) : Bool := m.entries.isEmpty

/-- Puts a value at a key, in place of the value that was there. -/
def insert (m : KeyMap α) (k : String) (v : α) : KeyMap α := ⟨put k v m.entries, ordered_put m.ordered⟩

/-- Puts a value at a key that has none yet. -/
def insertIfNew (m : KeyMap α) (k : String) (v : α) : KeyMap α := if m.contains k then m else m.insert k v

/-- Drops the entry at a key. -/
def erase (m : KeyMap α) (k : String) : KeyMap α :=
  ⟨m.entries.filter (·.1 ≠ k), m.ordered.sublist List.filter_sublist⟩

/-- Applies a function to every value, given its key. -/
def mapValues (f : String → α → β) (m : KeyMap α) : KeyMap β :=
  ⟨m.entries.map fun e => (e.1, f e.1 e.2), List.pairwise_map.2 m.ordered⟩

/-- Applies a function to the value at a key. -/
def modify (m : KeyMap α) (k : String) (f : α → α) : KeyMap α :=
  m.mapValues fun j v => if j = k then f v else v

/-- The map of a list of entries; of two entries at one key the later counts. -/
def ofList (l : List (String × α)) : KeyMap α := l.foldl (fun m e => m.insert e.1 e.2) empty

theorem ext {m n : KeyMap α} (h : ∀ k, m.get? k = n.get? k) : m = n := by
  obtain ⟨l, hl⟩ := m
  obtain ⟨r, hr⟩ := n
  have : l = r := eq_of_find_eq hl hr h
  subst this
  rfl

theorem get?_eq_some_iff_mem {m : KeyMap α} {k : String} {v : α} : m.get? k = some v ↔ (k, v) ∈ m.entries :=
  find_eq_some_iff_mem m.ordered

theorem perm_valuesIn (order : List String) (m : KeyMap α) : (m.valuesIn order).Perm m.values :=
  arranged_perm order m.entries

theorem mem_valuesIn {order : List String} {m : KeyMap α} {v : α} : v ∈ m.valuesIn order ↔ ∃ k, m.get? k = some v := by
  rw [valuesIn, mem_arranged]
  simp only [get?_eq_some_iff_mem]

theorem valuesIn_mapValues (order : List String) (m : KeyMap α) (g : α → β) :
    (m.mapValues fun _ => g).valuesIn order = (m.valuesIn order).map g :=
  arranged_map g order m.entries

theorem perm_entriesIn (order : List String) (m : KeyMap α) : (m.entriesIn order).Perm m.entries := by
  have hperm := arranged_perm order (m.entries.map fun e => (e.1, e))
  rwa [List.map_map, show (Prod.snd ∘ fun e : String × α => (e.1, e)) = id from rfl, List.map_id] at hperm

theorem map_snd_entriesIn (order : List String) (m : KeyMap α) : (m.entriesIn order).map (·.2) = m.valuesIn order := by
  rw [entriesIn, valuesIn, ← arranged_map, List.map_map]
  exact congrArg (arranged order) (List.map_id _)

theorem entriesIn_mapValues (order : List String) (m : KeyMap α) (f : String → α → β) :
    (m.mapValues f).entriesIn order = (m.entriesIn order).map fun e => (e.1, f e.1 e.2) := by
  rw [entriesIn, entriesIn, ← arranged_map, mapValues, List.map_map, List.map_map]
  rfl

/-- Every order can be had, by the list of its keys. -/
theorem valuesIn_keys {m : KeyMap α} {l : List (String × α)} (h : m.entries.Perm l) :
    m.valuesIn (l.map (·.1)) = l.map (·.2) := by
  refine arranged_keys h ?_
  have hkeys : (m.entries.map (·.1)).Nodup :=
    List.pairwise_map.mpr (m.ordered.imp String.ne_of_lt)
  exact (h.map (·.1)).nodup_iff.mp hkeys

@[simp] theorem get?_empty (k : String) : (empty : KeyMap α).get? k = none := rfl

theorem get?_insert (m : KeyMap α) (k j : String) (v : α) :
    (m.insert k v).get? j = if k = j then some v else m.get? j :=
  find_put k j v m.entries

theorem get?_insertIfNew (m : KeyMap α) (k j : String) (v : α) :
    (m.insertIfNew k v).get? j = if k = j then some ((m.get? j).getD v) else m.get? j := by
  unfold insertIfNew contains
  by_cases h : k = j
  · subst h
    cases hk : m.get? k <;> simp [hk, get?_insert]
  · cases hk : m.get? k <;> simp [h, get?_insert]

theorem get?_erase (m : KeyMap α) (k j : String) : (m.erase k).get? j = if k = j then none else m.get? j := by
  obtain ⟨l, hl⟩ := m
  show find j (l.filter _) = if k = j then none else find j l
  clear hl
  induction l with
  | nil => simp [find]
  | cons e r ih =>
    by_cases he : e.1 = k
    · simp only [List.filter_cons, he, ne_eq, not_true_eq_false, decide_false, Bool.false_eq_true, if_false, ih, find]
      by_cases hj : k = j <;> simp [hj]
    · simp only [List.filter_cons, ne_eq, he, not_false_eq_true, decide_true, if_true, find, ih]
      by_cases hj : e.1 = j
      · have : k ≠ j := fun x => he (hj.trans x.symm)
        simp [hj, this]
      · simp [hj]

theorem get?_mapValues (f : String → α → β) (m : KeyMap α) (k : String) :
    (m.mapValues f).get? k = (m.get? k).map (f k) := by
  obtain ⟨l, hl⟩ := m
  show find k (l.map _) = (find k l).map _
  clear hl
  induction l with
  | nil => rfl
  | cons e r ih =>
    by_cases he : e.1 = k
    · subst he
      simp [find]
    · simp [find, he, ih]

theorem get?_modify (m : KeyMap α) (k j : String) (f : α → α) :
    (m.modify k f).get? j = if k = j then (m.get? j).map f else m.get? j := by
  rw [modify, get?_mapValues]
  by_cases h : k = j
  · simp [h]
  · have h' : j ≠ k := fun x => h x.symm
    cases m.get? j <;> simp [h, h']

end KeyMap

/-- A set of strings, its members in ascending order. -/
structure KeySet where
  index : KeyMap Unit
  deriving Inhabited

namespace KeySet

def empty : KeySet := ⟨.empty⟩

instance : EmptyCollection KeySet := ⟨empty⟩

instance : BEq KeySet := ⟨fun s t => s.index == t.index⟩

def contains (s : KeySet) (k : String) : Bool := s.index.contains k

def insert (s : KeySet) (k : String) : KeySet := ⟨s.index.insert k ()⟩

def erase (s : KeySet) (k : String) : KeySet := ⟨s.index.erase k⟩

/-- The set without the given members. -/
def eraseAll (s : KeySet) (l : List String) : KeySet := l.foldl erase s

/-- The members, ascending. -/
def toList (s : KeySet) : List String := s.index.keys

def ofList (l : List String) : KeySet := l.foldl insert empty

def size (s : KeySet) : Nat := s.index.size

theorem contains_insert (s : KeySet) (k j : String) : (s.insert k).contains j = (k = j || s.contains j) := by
  unfold contains insert KeyMap.contains
  rw [KeyMap.get?_insert]
  by_cases h : k = j <;> simp [h]

theorem contains_erase (s : KeySet) (k j : String) : (s.erase k).contains j = (k ≠ j && s.contains j) := by
  unfold contains erase KeyMap.contains
  rw [KeyMap.get?_erase]
  by_cases h : k = j <;> simp [h]

theorem contains_eraseAll (s : KeySet) (l : List String) (j : String) :
    (s.eraseAll l).contains j = (j ∉ l && s.contains j) := by
  induction l generalizing s with
  | nil => simp [eraseAll]
  | cons k r ih =>
    have : s.eraseAll (k :: r) = (s.erase k).eraseAll r := rfl
    rw [this, ih, contains_erase]
    by_cases h : k = j
    · subst h
      simp
    · have h' : j ≠ k := fun x => h x.symm
      simp [h, h']

theorem ext {s t : KeySet} (h : ∀ k, s.contains k = t.contains k) : s = t := by
  obtain ⟨m⟩ := s
  obtain ⟨n⟩ := t
  congr 1
  refine KeyMap.ext fun k => ?_
  have := h k
  unfold contains KeyMap.contains at this
  cases hm : m.get? k <;> cases hn : n.get? k <;> simp_all

end KeySet

end Workboard
