import Mathlib
import Workboard.Apply.PinTable
import Workboard.Proofs.Keyed

/-! What a table of pins answers.

A pin is called by its id, by its name, and by each of its two names in lower case (`Pin.called`). A table tries
these one after the other, and of the pins that are called as is asked the one with the least id answers
(`find?_ofNode`, `answer?_eq_some_iff`). So only the ids and names of the pins count, not how they are stored, and
the table answers as four passes over the pins of the node would (`resolve?_ofNode`). -/

namespace Workboard

/-- The ways in which a pin may answer, in the order in which they are tried. -/
def MatchKind.all : List MatchKind := [.id, .name, .nameCaseInsensitive, .friendlyName]

/-- What a reference asks for in a way. -/
def MatchKind.sought (ref : String) : MatchKind → String
  | .id | .name => ref
  | .nameCaseInsensitive | .friendlyName => Text.lower ref

def Pin.called (p : Pin) : MatchKind → String
  | .id => p.id
  | .name => p.name
  | .nameCaseInsensitive => Text.lower p.name
  | .friendlyName => Text.lower p.friendlyName

/-- A later entry at a key that has one already does not count. -/
theorem KeyMap.get?_foldl_insertIfNew {α β : Type} (key : α → String) (value : α → β) (l : List α) (m : KeyMap β)
    (k : String) : (l.foldl (fun m a => m.insertIfNew (key a) (value a)) m).get? k =
      (m.get? k).or ((l.find? (key · = k)).map value) := by
  induction l generalizing m with
  | nil => simp
  | cons a l ih =>
    rw [List.foldl_cons, ih, get?_insertIfNew]
    by_cases ha : key a = k
    · rw [if_pos ha, List.find?_cons_of_pos (by simpa using ha)]
      cases m.get? k <;> rfl
    · rw [if_neg ha, List.find?_cons_of_neg (by simpa using ha)]

namespace Node

variable {n : Node} {ref id : String} {kind : MatchKind}

def pinIds (n : Node) : Set String := {id | ∃ p ∈ n.pins.values, p.id = id}

/-- The ids of the pins that answer a reference in a way. -/
def answering (n : Node) (ref : String) (kind : MatchKind) : Set String :=
  {id | ∃ p ∈ n.pins.values, p.called kind = kind.sought ref ∧ p.id = id}

/-- The id of the first pin that answers a reference in a way. -/
def answer? (n : Node) (ref : String) (kind : MatchKind) : Option String :=
  (n.pinsById.find? fun p => p.called kind = kind.sought ref).map (·.id)

theorem mem_pinsById {p : Pin} : p ∈ n.pinsById ↔ p ∈ n.pins.values := List.mem_mergeSort

theorem pairwise_pinsById (n : Node) : n.pinsById.Pairwise fun p q => p.id ≤ q.id := pairwise_le_mergeSort Pin.id n.pins.values

theorem answer?_eq_none_iff : n.answer? ref kind = none ↔ n.answering ref kind = ∅ := by
  rw [answer?, Option.map_eq_none_iff, List.find?_eq_none, Set.eq_empty_iff_forall_notMem]
  constructor
  · rintro h _ ⟨p, hp, hcalled, rfl⟩
    exact h p (mem_pinsById.mpr hp) (decide_eq_true hcalled)
  · intro h p hp hcalled
    exact h p.id ⟨p, mem_pinsById.mp hp, of_decide_eq_true hcalled, rfl⟩

/-- Of the pins that answer the one with the least id is taken. -/
theorem answer?_eq_some_iff : n.answer? ref kind = some id ↔ IsLeast (n.answering ref kind) id := by
  have hleast : ∀ p, n.pinsById.find? (fun p => p.called kind = kind.sought ref) = some p →
      IsLeast (n.answering ref kind) p.id := by
    intro p hfound
    obtain ⟨hcalled, before, after, hsplit, hbefore⟩ := List.find?_eq_some_iff_append.mp hfound
    have hsorted := n.pairwise_pinsById
    rw [hsplit, List.pairwise_append, List.pairwise_cons] at hsorted
    refine ⟨⟨p, mem_pinsById.mp (List.mem_of_find?_eq_some hfound), of_decide_eq_true hcalled, rfl⟩, ?_⟩
    rintro _ ⟨q, hq, hasked, rfl⟩
    have hmem : q ∈ before ++ p :: after := hsplit ▸ mem_pinsById.mpr hq
    -- Those before the one found do not answer, and those behind it have larger ids.
    rcases List.mem_append.mp hmem with hq | hq
    · simpa [hasked] using hbefore q hq
    · rcases List.mem_cons.mp hq with rfl | hq
      · exact le_rfl
      · exact hsorted.2.1.1 q hq
  constructor
  · intro h
    obtain ⟨p, hfound, rfl⟩ := Option.map_eq_some_iff.mp h
    exact hleast p hfound
  · intro h
    cases hfound : n.answer? ref kind with
    | none =>
      rw [answer?_eq_none_iff.mp hfound] at h
      exact h.1.elim
    | some other =>
      obtain ⟨p, hp, rfl⟩ := Option.map_eq_some_iff.mp hfound
      rw [(hleast p hp).unique h]

theorem answering_subset_pinIds (n : Node) (ref : String) (kind : MatchKind) : n.answering ref kind ⊆ n.pinIds :=
  fun _ ⟨p, hp, _, hid⟩ => ⟨p, hp, hid⟩

theorem mem_answering_id : id ∈ n.answering ref .id ↔ id = ref ∧ id ∈ n.pinIds := by
  constructor
  · rintro ⟨p, hp, hcalled, rfl⟩
    exact ⟨hcalled, p, hp, rfl⟩
  · rintro ⟨rfl, p, hp, hid⟩
    exact ⟨p, hp, hid, hid⟩

end Node

namespace PinTable

theorem ids_foldl_add (l : List Pin) (t : PinTable) : (l.foldl add t).ids = t.ids.insertAll (l.map (·.id)) := by
  induction l generalizing t with
  | nil => rfl
  | cons p l ih => exact ih (t.add p)

theorem contains_ids_ofNode (n : Node) (id : String) : (ofNode n).ids.contains id = true ↔ id ∈ n.pinIds := by
  have hids : (ofNode n).ids = (∅ : KeySet).insertAll (n.pinsById.map (·.id)) := ids_foldl_add n.pinsById empty
  have hempty : (∅ : KeySet).contains id = false := rfl
  rw [hids, KeySet.contains_insertAll, hempty, List.mem_map]
  constructor
  · rintro (⟨p, hp, hid⟩ | h)
    · exact ⟨p, Node.mem_pinsById.mp hp, hid⟩
    · cases h
  · rintro ⟨p, hp, hid⟩
    exact Or.inl ⟨p, Node.mem_pinsById.mpr hp, hid⟩

/-- Each of the three maps of a table holds the first pin that is called so. -/
theorem get?_ofNode (names : PinTable → KeyMap String) (key : Pin → String) (hempty : names empty = ∅)
    (hsummaries : ∀ t l, names { t with summaries := l } = names t)
    (hadd : ∀ t p, names (t.add p) = (names t).insertIfNew (key p) p.id) (n : Node) (k : String) :
    (names (ofNode n)).get? k = (n.pinsById.find? (key · = k)).map (·.id) := by
  have hfold : names (n.pinsById.foldl add empty) = n.pinsById.foldl (fun m p => m.insertIfNew (key p) p.id) ∅ := by
    rw [← hempty]
    exact (List.foldl_hom names fun t p => (hadd t p).symm).symm
  have hnone : (∅ : KeyMap String).get? k = none := rfl
  rw [ofNode, hsummaries, hfold, KeyMap.get?_foldl_insertIfNew, hnone, Option.none_or]

/-- The id of a pin means this pin. -/
theorem find?_id {n : Node} {ref : String} (hid : ref ∈ n.pinIds) : (ofNode n).find? ref = some ⟨ref, .id⟩ := by
  unfold find?
  rw [if_pos ((contains_ids_ofNode n ref).mpr hid)]

/-- A table answers in the first way in which any pin answers. -/
theorem find?_ofNode (n : Node) (ref : String) :
    (ofNode n).find? ref = MatchKind.all.findSome? fun kind => (n.answer? ref kind).map (⟨·, kind⟩) := by
  have hname : (ofNode n).byName.get? ref = n.answer? ref .name :=
    get?_ofNode byName Pin.name rfl (fun _ _ => rfl) (fun _ _ => rfl) n ref
  have hlower : (ofNode n).byLowerName.get? (Text.lower ref) = n.answer? ref .nameCaseInsensitive :=
    get?_ofNode byLowerName (fun p => Text.lower p.name) rfl (fun _ _ => rfl) (fun _ _ => rfl) n (Text.lower ref)
  have hfriendly : (ofNode n).byFriendlyName.get? (Text.lower ref) = n.answer? ref .friendlyName :=
    get?_ofNode byFriendlyName (fun p => Text.lower p.friendlyName) rfl (fun _ _ => rfl) (fun _ _ => rfl) n (Text.lower ref)
  unfold find?
  rw [hname, hlower, hfriendly]
  cases hid : n.answer? ref .id with
  | some id =>
    obtain ⟨rfl, hpin⟩ := Node.mem_answering_id.mp (Node.answer?_eq_some_iff.mp hid).1
    rw [if_pos ((contains_ids_ofNode n id).mpr hpin)]
    simp [MatchKind.all, hid]
  | none =>
    have hpin : ref ∉ n.pinIds := by
      intro h
      have hmem : ref ∈ n.answering ref .id := Node.mem_answering_id.mpr ⟨rfl, h⟩
      rw [Node.answer?_eq_none_iff.mp hid] at hmem
      exact hmem
    rw [if_neg (mt (contains_ids_ofNode n ref).mp hpin)]
    simp only [MatchKind.all, List.findSome?_cons, hid, Option.map_none]
    cases n.answer? ref .name <;> cases n.answer? ref .nameCaseInsensitive <;> cases n.answer? ref .friendlyName <;> rfl

end PinTable

/-! ### Without a table -/

namespace Node

/-- One pass over the pins of a node: the least id among the pins that are called so. -/
def pass? (n : Node) (called : Pin → String) (sought : String) : Option String :=
  ((n.pins.values.filter fun p => called p = sought).map (·.id)).min?

/-- The pin that a text means, looked for in four passes: by id, by name, by name in any case, and by friendly name in
    any case. -/
def search? (n : Node) (text : String) : Option PinMatch :=
  match n.pass? (·.id) text with
  | some pin => some ⟨pin, .id⟩
  | none =>
    match n.pass? (·.name) text with
    | some pin => some ⟨pin, .name⟩
    | none =>
      match n.pass? (fun p => Text.lower p.name) (Text.lower text) with
      | some pin => some ⟨pin, .nameCaseInsensitive⟩
      | none => (n.pass? (fun p => Text.lower p.friendlyName) (Text.lower text)).map (⟨·, .friendlyName⟩)

/-- A pass comes to the first of the sorted pins that answers in the way. -/
theorem pass?_called (n : Node) (ref : String) (kind : MatchKind) :
    n.pass? (·.called kind) (kind.sought ref) = n.answer? ref kind := by
  have hmem (id : String) : id ∈ (n.pins.values.filter fun p => p.called kind = kind.sought ref).map (·.id) ↔
      id ∈ n.answering ref kind := by
    simp only [List.mem_map, List.mem_filter, decide_eq_true_eq, and_assoc]
    rfl
  refine Option.ext fun id => ?_
  rw [answer?_eq_some_iff, pass?, List.min?_eq_some_iff, hmem]
  exact and_congr_right fun _ => forall_congr' fun other => imp_congr_left (hmem other)

end Node

namespace PinTable

/-- A table answers as the search without it does; outer white space of the reference does not count. -/
theorem resolve?_ofNode (n : Node) (ref : String) : (ofNode n).resolve? ref = n.search? (Text.trim ref) := by
  have hid := n.pass?_called (Text.trim ref) .id
  have hname := n.pass?_called (Text.trim ref) .name
  have hlower := n.pass?_called (Text.trim ref) .nameCaseInsensitive
  have hfriendly := n.pass?_called (Text.trim ref) .friendlyName
  simp only [Pin.called, MatchKind.sought] at hid hname hlower hfriendly
  rw [resolve?, find?_ofNode, Node.search?, hid, hname, hlower, hfriendly]
  simp only [MatchKind.all, List.findSome?_cons, List.findSome?_nil]
  cases n.answer? (Text.trim ref) .id <;> cases n.answer? (Text.trim ref) .name <;>
    cases n.answer? (Text.trim ref) .nameCaseInsensitive <;> cases n.answer? (Text.trim ref) .friendlyName <;> rfl

end PinTable

end Workboard
