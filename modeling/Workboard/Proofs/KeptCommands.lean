import Workboard.Proofs.Proper
import Workboard.Proofs.Repeats

/-! The commands that a batch keeps.

Whether a command stays depends on those that stay before it, since two commands that repeat a third need not repeat each
other. So a batch is told by the positions of what is kept (`Command.Keeps`): no two kept commands repeat each other, and
what is left out repeats one that is kept before it. Every list has such positions (`Command.exists_keeps`), and no two
choices of them (`Command.Keeps.unique`). The list that a text is filtered from runs through all its blocks
(`Batch.ofText_keeps`). -/

namespace Workboard

theorem map_getElem?_range {α : Type} (l : List α) : (List.range l.length).map (l[·]?) = l.map some :=
  List.ext_getElem (by simp) fun i _ _ => by simp

/-- To repeat goes both ways. -/
theorem Action.repeats_comm (a b : Action) : a.repeats b = b.repeats a := by
  cases a <;> cases b <;> simp only [repeats, eq_comm]

namespace Command

theorem repeats_comm (c d : Command) : c.repeats d = d.repeats c := c.action.repeats_comm d.action

/-- A batch has the commands of a list that stand at the given positions, and lacks just those that one kept before
    them makes repeats. -/
structure Keeps (l : List Command) (positions : List ℕ) (batch : List Command) : Prop where
  ascending : positions.Pairwise (· < ·)
  commands : positions.map (l[·]?) = batch.map some
  /-- No two commands of the batch repeat each other, in either order. -/
  apart : batch.Pairwise fun c d => c.repeats d = false ∧ d.repeats c = false
  /-- What is left out repeats a command that comes before it and stays. -/
  covered : ∀ i d, l[i]? = some d → i ∉ positions →
    ∃ j ∈ positions, j < i ∧ ∃ c, l[j]? = some c ∧ c.repeats d = true

namespace Keeps

variable {l batch other : List Command} {positions others : List ℕ} {c d : Command} {i j : ℕ}

theorem exists_command (h : Keeps l positions batch) (hi : i ∈ positions) : ∃ c ∈ batch, l[i]? = some c := by
  have hmem : l[i]? ∈ positions.map (l[·]?) := List.mem_map_of_mem hi
  rw [h.commands, List.mem_map] at hmem
  obtain ⟨c, hc, heq⟩ := hmem
  exact ⟨c, hc, heq.symm⟩

theorem exists_position (h : Keeps l positions batch) (hc : c ∈ batch) : ∃ i ∈ positions, l[i]? = some c := by
  have hmem : some c ∈ batch.map some := List.mem_map_of_mem hc
  rw [← h.commands] at hmem
  exact List.mem_map.mp hmem

theorem lt_length (h : Keeps l positions batch) (hi : i ∈ positions) : i < l.length := by
  obtain ⟨c, -, hc⟩ := h.exists_command hi
  exact (List.getElem?_eq_some_iff.mp hc).1

theorem getElem?_concat (h : Keeps l positions batch) (hi : i ∈ positions) (d : Command) : (l ++ [d])[i]? = l[i]? :=
  List.getElem?_append_left (h.lt_length hi)

/-! ### One more command -/

theorem commands_concat (h : Keeps l positions batch) (d : Command) :
    positions.map ((l ++ [d])[·]?) = batch.map some := by
  rw [← h.commands]
  exact List.map_congr_left fun i hi => h.getElem?_concat hi d

theorem covered_concat (h : Keeps l positions batch) (hd : (l ++ [d])[i]? = some c) (hlast : i ≠ l.length)
    (hi : i ∉ positions) : ∃ j ∈ positions, j < i ∧ ∃ e, (l ++ [d])[j]? = some e ∧ e.repeats c = true := by
  have hlt : i < l.length := by
    have := (List.getElem?_eq_some_iff.mp hd).1
    rw [List.length_append, List.length_singleton] at this
    omega
  rw [List.getElem?_append_left hlt] at hd
  obtain ⟨j, hj, hji, e, he, hrep⟩ := h.covered i c hd hi
  exact ⟨j, hj, hji, e, (h.getElem?_concat hj d).trans he, hrep⟩

/-- A command that nothing kept makes a repeat is kept. -/
theorem keep (h : Keeps l positions batch) (hnew : ∀ c ∈ batch, c.repeats d = false) :
    Keeps (l ++ [d]) (positions ++ [l.length]) (batch ++ [d]) where
  ascending := by
    refine List.pairwise_append.mpr ⟨h.ascending, List.pairwise_singleton _ _, fun i hi j hj => ?_⟩
    rw [List.mem_singleton.mp hj]
    exact h.lt_length hi
  commands := by
    rw [List.map_append, h.commands_concat, List.map_append, List.map_singleton, List.getElem?_concat_length]
    rfl
  apart := by
    refine List.pairwise_append.mpr ⟨h.apart, List.pairwise_singleton _ _, fun c hc e he => ?_⟩
    rw [List.mem_singleton.mp he]
    exact ⟨hnew c hc, (repeats_comm d c).trans (hnew c hc)⟩
  covered := fun i c hc hi => by
    rw [List.mem_append, List.mem_singleton, not_or] at hi
    obtain ⟨j, hj, hcovers⟩ := h.covered_concat hc hi.2 hi.1
    exact ⟨j, List.mem_append_left _ hj, hcovers⟩

/-- A command that something kept makes a repeat is left out. -/
theorem drop (h : Keeps l positions batch) (hc : c ∈ batch) (hrep : c.repeats d = true) :
    Keeps (l ++ [d]) positions batch where
  ascending := h.ascending
  commands := h.commands_concat d
  apart := h.apart
  covered := fun i e he hi => by
    by_cases hlast : i = l.length
    · subst hlast
      obtain rfl : d = e := Option.some.inj (List.getElem?_concat_length.symm.trans he)
      obtain ⟨j, hj, hcj⟩ := h.exists_position hc
      exact ⟨j, hj, h.lt_length hj, c, (h.getElem?_concat hj d).trans hcj, hrep⟩
    · exact h.covered_concat he hlast hi

/-! ### All commands -/

theorem sublist (h : Keeps l positions batch) : batch.Sublist l := by
  have hsubset : positions ⊆ List.range l.length := fun i hi => List.mem_range.mpr (h.lt_length hi)
  have hpositions : positions.Sublist (List.range l.length) :=
    List.sublist_of_subperm_of_pairwise (h.ascending.nodup.subperm hsubset) h.ascending List.pairwise_lt_range
  have hcommands := (hpositions.map (l[·]?)).filterMap id
  rwa [h.commands, map_getElem?_range, List.filterMap_map, List.filterMap_map, Function.id_comp, List.filterMap_some,
    List.filterMap_some] at hcommands

theorem mem_or_repeats (h : Keeps l positions batch) (hd : d ∈ l) : d ∈ batch ∨ ∃ c ∈ batch, c.repeats d = true := by
  obtain ⟨i, hi⟩ := List.mem_iff_getElem?.mp hd
  by_cases hkept : i ∈ positions
  · obtain ⟨c, hc, hic⟩ := h.exists_command hkept
    obtain rfl : d = c := Option.some.inj (hi.symm.trans hic)
    exact .inl hc
  · obtain ⟨j, hj, -, c, hjc, hrep⟩ := h.covered i d hi hkept
    obtain ⟨e, he, hje⟩ := h.exists_command hj
    obtain rfl : c = e := Option.some.inj (hjc.symm.trans hje)
    exact .inr ⟨c, he, hrep⟩

/-- Kept commands do not repeat each other. -/
theorem repeats_eq_false (h : Keeps l positions batch) (hj : j ∈ positions) (hi : i ∈ positions) (hne : j ≠ i)
    (hc : l[j]? = some c) (hd : l[i]? = some d) : c.repeats d = false := by
  have hapart : (positions.map (l[·]?)).Pairwise fun o p => ∀ c ∈ o, ∀ d ∈ p, c.repeats d = false := by
    rw [h.commands, List.pairwise_map]
    refine h.apart.imp fun hrep c hc d hd => ?_
    cases hc
    cases hd
    exact hrep.1
  have : Std.Symm fun i j : ℕ => ∀ c ∈ l[i]?, ∀ d ∈ l[j]?, c.repeats d = false :=
    ⟨fun i j hij d hd c hc => (repeats_comm d c).trans (hij c hc d hd)⟩
  exact (List.pairwise_map.mp hapart).forall hj hi hne c hc d hd

/-- A position is kept by one batch if it is kept by another, and they agree on what comes before. -/
theorem mem_of_mem (h : Keeps l positions batch) (h' : Keeps l others other)
    (hbefore : ∀ j < i, j ∈ others → j ∈ positions) (hi : i ∈ positions) : i ∈ others := by
  by_contra hleft
  obtain ⟨d, -, hd⟩ := h.exists_command hi
  obtain ⟨j, hj, hji, c, hc, hrep⟩ := h'.covered i d hd hleft
  have hapart := h.repeats_eq_false (hbefore j hji hj) hi hji.ne hc hd
  rw [hrep] at hapart
  cases hapart

/-- What is kept depends on the list alone. -/
theorem unique (h : Keeps l positions batch) (h' : Keeps l others other) : positions = others ∧ batch = other := by
  -- Whether a position is kept is told by those before it.
  have hmem (i : ℕ) : i ∈ positions ↔ i ∈ others := by
    induction i using Nat.strong_induction_on with
    | h i ih =>
      exact ⟨h.mem_of_mem h' fun j hj => (ih j hj).mpr, h'.mem_of_mem h fun j hj => (ih j hj).mp⟩
  obtain rfl : positions = others := h.ascending.eq_of_mem_iff h'.ascending hmem
  exact ⟨rfl, List.map_injective_iff.mpr (Option.some_injective _) (h.commands.symm.trans h'.commands)⟩

/-- Where no command repeats another all are kept. -/
theorem self (hapart : l.Pairwise fun c d => c.repeats d = false ∧ d.repeats c = false) :
    Keeps l (List.range l.length) l where
  ascending := List.pairwise_lt_range
  commands := map_getElem?_range l
  apart := hapart
  covered := fun _ _ hd hi => absurd (List.mem_range.mpr (List.getElem?_eq_some_iff.mp hd).1) hi

end Keeps

/-- From what was kept of the commands done, the filter comes to what is kept of all. -/
theorem keeps_dropRepeats {done kept : List Command} {positions : List ℕ} (h : Keeps done positions kept.reverse)
    (l : List Command) : ∃ positions, Keeps (done ++ l) positions (dropRepeats kept l) := by
  induction l generalizing done kept positions with
  | nil =>
    rw [List.append_nil]
    exact ⟨positions, h⟩
  | cons d r ih =>
    rw [List.append_cons, dropRepeats]
    split
    · rename_i hrep
      obtain ⟨c, hc, hrep⟩ := List.any_eq_true.mp hrep
      exact ih (h.drop (List.mem_reverse.mpr hc) hrep)
    · rename_i hnew
      have hnew : ∀ c ∈ kept.reverse, c.repeats d = false := by simpa using hnew
      have hkeep := h.keep hnew
      rw [← List.reverse_cons] at hkeep
      exact ih hkeep

theorem exists_keeps (l : List Command) : ∃ positions, Keeps l positions (distinct l) := by
  have hnil : Keeps [] [] ([] : List Command).reverse := ⟨.nil, rfl, .nil, fun _ _ h => by cases h⟩
  exact keeps_dropRepeats hnil l

/-- A batch without repeats stays as it is. -/
theorem distinct_distinct (l : List Command) : distinct (distinct l) = distinct l := by
  obtain ⟨_, h⟩ := exists_keeps l
  obtain ⟨_, h'⟩ := exists_keeps (distinct l)
  exact (h'.unique (.self h.apart)).2

end Command

namespace Batch

/-- The parts of a text that are read as JSON: its blocks, or all of it if it has none. -/
def pieces (text : String) : List (List Char) :=
  match blocks text.toList with
  | [] => [text.toList]
  | found => found

theorem eq_ok_of_mapError {ε ε' α : Type} {f : ε → ε'} {x : Except ε α} {a : α} (h : x.mapError f = .ok a) :
    x = .ok a := by
  cases x with
  | error e => cases h
  | ok b => exact congrArg _ (Except.ok.inj h)

theorem exists_of_readBlocks {n : ℕ} {found : List (List Char)} {l : List Command} (h : readBlocks n found = .ok l) :
    ∃ lists, List.Forall₂ (fun piece cs => readJson (.ofList piece) = .ok cs) found lists ∧ lists.flatten = l := by
  induction found generalizing n l with
  | nil =>
    cases h
    exact ⟨[], .nil, rfl⟩
  | cons block r ih =>
    obtain ⟨first, hfirst, h⟩ := bind_eq_ok h
    obtain ⟨rest, hrest, h⟩ := bind_eq_ok h
    obtain ⟨lists, hlists, rfl⟩ := ih hrest
    cases h
    exact ⟨first :: lists, .cons (eq_ok_of_mapError hfirst) hlists, rfl⟩

/-- The commands of a text are those of its parts, one after the other. -/
theorem exists_of_commandsOf {text : String} {l : List Command} (h : commandsOf text = .ok l) :
    ∃ lists, List.Forall₂ (fun piece cs => readJson (.ofList piece) = .ok cs) (pieces text) lists ∧ lists.flatten = l := by
  unfold commandsOf at h
  unfold pieces
  generalize blocks text.toList = found at h
  cases found with
  | nil =>
    refine ⟨[l], .cons ?_ .nil, by simp⟩
    rw [String.ofList_toList]
    exact eq_ok_of_mapError h
  | cons block r => exact exists_of_readBlocks h

/-- The batch of a text is a part, in order, of the commands of all its blocks. It has no repeats; what it lacks repeats an
    earlier command that it has, and this leaves no choice. To filter it again changes nothing. -/
theorem ofText_keeps {text : String} {batch : List Command} (hread : ofText text = .ok batch) :
    ∃ lists, List.Forall₂ (fun piece cs => readJson (.ofList piece) = .ok cs) (pieces text) lists ∧
      batch.Sublist lists.flatten ∧ (∃ positions, Command.Keeps lists.flatten positions batch) ∧
      (∀ positions other, Command.Keeps lists.flatten positions other → other = batch) ∧
      Command.distinct batch = batch := by
  rw [ofText_eq] at hread
  cases hl : commandsOf text with
  | error e =>
    rw [hl] at hread
    cases hread
  | ok l =>
    rw [hl] at hread
    obtain rfl : Command.distinct l = batch := Except.ok.inj hread
    obtain ⟨lists, hlists, rfl⟩ := exists_of_commandsOf hl
    obtain ⟨positions, hkeeps⟩ := Command.exists_keeps lists.flatten
    exact ⟨lists, hlists, hkeeps.sublist, ⟨positions, hkeeps⟩, fun _ _ h => (h.unique hkeeps).2,
      Command.distinct_distinct lists.flatten⟩

/-- Placeholders in two blocks: the second takes the reference of the first, the third has the name of the second. -/
def twoBlocks : String :=
  "<commands>[[\"AddPlaceholder\",\"F\",\"A\"]]</commands><commands>[[\"AddPlaceholder\",\"S\",\"A\"],[\"AddPlaceholder\",\"S\",\"B\"]]</commands>"

/-- The third stays, as the second, which it repeats, is left out. -/
theorem ofText_keeps_twoBlocks : ∃ (batch : List Command) (lists : List (List Command)), ofText twoBlocks = .ok batch ∧
    batch.filterMap (fun c => c.placeholder?.map fun r => (r.name, r.ref)) = [("F", some "A"), ("S", some "B")] ∧
    batch.Sublist lists.flatten ∧ (∃ positions, Command.Keeps lists.flatten positions batch) ∧
    Command.distinct batch = batch := by
  have hread : (ofText twoBlocks).toOption.any fun batch =>
      batch.filterMap (fun c => c.placeholder?.map fun r => (r.name, r.ref)) = [("F", some "A"), ("S", some "B")] := by
    decide +kernel
  cases hbatch : ofText twoBlocks with
  | error e =>
    rw [hbatch] at hread
    cases hread
  | ok batch =>
    rw [hbatch] at hread
    obtain ⟨lists, -, hsublist, hkeeps, -, hagain⟩ := ofText_keeps hbatch
    exact ⟨batch, lists, rfl, of_decide_eq_true hread, hsublist, hkeeps, hagain⟩

end Batch

end Workboard
