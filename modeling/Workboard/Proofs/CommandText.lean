import Workboard.Proofs.CommandValue

/-! Commands as they are printed.

A printed command has the members of its JSON form in another order (`Command.sorted_printed`). Its numbers are
coordinates, sizes and those of its values (`Command.readsBack_printed`), and its values are nested less deep than it is
(`Command.depth_value`). -/

namespace Workboard

namespace Json

theorem sorted_ofText? (o : Option String) : (ofText? o).sorted = ofText? o := by
  cases o <;> rfl

theorem sorted_real (x : Float) : (real x).sorted = real x := by
  unfold real
  split <;> rfl

theorem sorted_array {α : Type} {enc enc' : α → Json} {l : List α} (h : ∀ x ∈ l, (enc x).sorted = enc' x) :
    (array (l.map enc)).sorted = .array (l.map enc') := by
  rw [sorted, sortedItems_eq, List.map_map]
  exact congrArg array (List.map_congr_left h)

theorem sorted_ofTexts (l : List String) : (ofTexts l).sorted = ofTexts l := sorted_array fun _ _ => rfl

theorem sorted_ofMaybe {α : Type} {enc enc' : α → Json} {o : Option α} (h : ∀ x ∈ o, (enc x).sorted = enc' x) :
    (ofMaybe enc o).sorted = ofMaybe enc' o := by
  cases o with
  | none => rfl
  | some x => exact h x rfl

theorem sorted_object {l l' : List (String × Json)} (h : l.map (fun e => (e.1, e.2.sorted)) = l') :
    (object l).sorted = .ofMembers l' := by
  rw [sorted, sortedMembers_eq, h]

end Json

theorem Spot.toJson_eq (s : Spot) : s.toJson = .object [("x", .real s.x), ("y", .real s.y)] :=
  congrArg Json.ofMap (KeyMap.ofList_entries ⟨_, List.pairwise_pair.mpr (by decide : "x" < "y")⟩)

theorem Spot.sorted_toJson (s : Spot) : s.toJson.sorted = s.toJson := by
  rw [toJson_eq, Json.sorted_object (by simp only [List.map_cons, List.map_nil, Json.sorted_real]; rfl)]
  exact s.toJson_eq

theorem PinRequest.sorted_members (p : PinRequest) : (Json.object p.members).sorted = .ofMembers p.members :=
  Json.sorted_object (by simp [members, Json.sorted_ofText?, Json.sorted])

/-! ### Numbers and values -/

namespace Json

/-- All numbers of a value are binary64 numbers. -/
def OnlyReals (j : Json) : Prop := ∀ n ∈ j.numbers, ∃ x, n = .real x

theorem onlyReals_of_nil {j : Json} (h : j.numbers = []) : j.OnlyReals := fun n hn => by
  rw [h] at hn
  cases hn

theorem onlyReals_ofText? (o : Option String) : (ofText? o).OnlyReals := by
  cases o <;> exact onlyReals_of_nil rfl

theorem onlyReals_real (x : Float) : (real x).OnlyReals := by
  unfold real
  split
  · exact fun n hn => ⟨x, List.mem_singleton.mp hn⟩
  · exact onlyReals_of_nil rfl

theorem onlyReals_array {α : Type} {enc : α → Json} {l : List α} (h : ∀ x ∈ l, (enc x).OnlyReals) :
    (array (l.map enc)).OnlyReals := by
  intro n hn
  obtain ⟨j, hj, hn⟩ := mem_itemNumbers.mp hn
  obtain ⟨x, hx, rfl⟩ := List.mem_map.mp hj
  exact h x hx n hn

theorem onlyReals_object {l : List (String × Json)} (h : ∀ e ∈ l, e.2.OnlyReals) : (object l).OnlyReals := by
  intro n hn
  obtain ⟨e, he, hn⟩ := mem_memberNumbers.mp hn
  exact h e he n hn

theorem onlyReals_ofMaybe {α : Type} {enc : α → Json} {o : Option α} (h : ∀ x ∈ o, (enc x).OnlyReals) :
    (ofMaybe enc o).OnlyReals := by
  cases o with
  | none => exact onlyReals_of_nil rfl
  | some x => exact h x rfl

end Json

theorem Spot.onlyReals (s : Spot) : s.toJson.OnlyReals := by
  rw [toJson_eq]
  refine Json.onlyReals_object ?_
  simp only [List.forall_mem_cons]
  exact ⟨Json.onlyReals_real _, Json.onlyReals_real _, by simp⟩

/-- The numbers in the members of an action are coordinates, sizes and those of its values. -/
theorem Action.onlyReals_or_value (a : Action) : ∀ e ∈ a.members .object, e.2.OnlyReals ∨ e.2 ∈ a.values := by
  have htext (s : String) : (Json.string s).OnlyReals := Json.onlyReals_of_nil rfl
  have hspot (o : Option Spot) : (Json.ofMaybe Spot.toJson o).OnlyReals := Json.onlyReals_ofMaybe fun s _ => s.onlyReals
  have hsize (o : Option Float) : (Json.ofMaybe .real o).OnlyReals := Json.onlyReals_ofMaybe fun x _ => Json.onlyReals_real x
  have htexts (l : List String) : (Json.ofTexts l).OnlyReals := Json.onlyReals_array fun s _ => htext s
  have hpins (o : Option (List PinRequest)) :
      (Json.ofMaybe (fun l => .array (l.map fun p => .object p.members)) o).OnlyReals := by
    refine Json.onlyReals_ofMaybe fun l _ => Json.onlyReals_array fun p _ => Json.onlyReals_object ?_
    simp [PinRequest.members, htext, Json.onlyReals_ofText?]
  have hvalue (o : Option Json) : (o.getD .null).OnlyReals ∨ o = some (o.getD .null) := by
    cases o with
    | none => exact .inl (Json.onlyReals_of_nil rfl)
    | some j => exact .inr rfl
  have hflag (b : Bool) : (Json.bool b).OnlyReals := Json.onlyReals_of_nil rfl
  cases a with
  | updateNodePin node pin value => simp [members, htext, values]
  | createVariable r => simp [members, htext, Json.onlyReals_ofText?, hflag, hvalue r.value, values, value?]
  | updateVariable id e => simp [members, htext, Json.onlyReals_ofText?, hvalue e.value, values, value?]
  | _ => simp [members, WireRequest.members, htext, Json.onlyReals_ofText?, hspot, hsize, htexts, hpins, Spot.onlyReals]

theorem Action.exists_mem_members {a : Action} {j : Json} (h : j ∈ a.values) : ∃ k, (k, j) ∈ a.members .object := by
  cases a with
  | updateNodePin node pin value =>
    obtain rfl := List.mem_singleton.mp h
    exact ⟨"value", by simp [members]⟩
  | createVariable r =>
    have hj : r.value = some j := Option.mem_toList.mp h
    exact ⟨"default_value", by simp [members, hj]⟩
  | updateVariable id e =>
    have hj : e.value = some j := Option.mem_toList.mp h
    exact ⟨"default_value", by simp [members, hj]⟩
  | _ => cases h

namespace Command

variable {c : Command}

theorem depth_value {j : Json} (h : j ∈ c.action.values) : j.depth < c.printed.depth := by
  obtain ⟨k, hk⟩ := Action.exists_mem_members h
  exact Nat.lt_succ_of_le (Json.depth_le_members (e := (k, j)) (by simp [members, hk]))

/-- The numbers of a command read back if its coordinates, its sizes and the numbers of its values do. -/
theorem readsBack_printed (h : c.action.Plain) (hreal : ∀ x, .real x ∈ c.printed.numbers → (JsonNumber.real x).ReadsBack) :
    ∀ n ∈ c.printed.numbers, n.ReadsBack := by
  intro n hn
  obtain ⟨e, he, hne⟩ := Json.mem_memberNumbers.mp hn
  have hmember : e.2.OnlyReals ∨ e.2 ∈ c.action.values := by
    rcases List.mem_cons.mp he with rfl | he
    · exact .inl (Json.onlyReals_of_nil rfl)
    rcases List.mem_append.mp he with he | he
    · exact c.action.onlyReals_or_value e he
    · rw [List.mem_singleton.mp he]
      exact .inl (Json.onlyReals_ofText? c.summary)
  rcases hmember with hreals | hvalue
  · obtain ⟨x, rfl⟩ := hreals n hne
    exact hreal x hn
  · have hheld := (h.values e.2 hvalue).numbers n hne
    cases n with
    | whole n => exact JsonNumber.readsBack_whole hheld.1 hheld.2
    | real x => exact hreal x hn
    | single x => exact hheld.elim

/-- A command in text has the members of its JSON form. -/
theorem sorted_printed (h : ∀ j ∈ c.action.values, j.sorted = j) : c.printed.sorted = c.toJson := by
  have hvalue (o : Option Json) (ho : ∀ j ∈ o.toList, j.sorted = j) : (o.getD .null).sorted = o.getD .null := by
    cases o with
    | none => rfl
    | some j => exact ho j List.mem_cons_self
  have hspot (o : Option Spot) : (Json.ofMaybe Spot.toJson o).sorted = .ofMaybe Spot.toJson o :=
    Json.sorted_ofMaybe fun s _ => s.sorted_toJson
  have hsize (o : Option Float) : (Json.ofMaybe .real o).sorted = .ofMaybe .real o :=
    Json.sorted_ofMaybe fun x _ => Json.sorted_real x
  have hpins (o : Option (List PinRequest)) : (Json.ofMaybe (fun l => .array (l.map fun p => .object p.members)) o).sorted =
      .ofMaybe (fun l => .array (l.map fun p => .ofMembers p.members)) o :=
    Json.sorted_ofMaybe fun l _ => Json.sorted_array fun p _ => p.sorted_members
  have haction : (c.action.members .object).map (fun e => (e.1, e.2.sorted)) = c.action.members .ofMembers := by
    generalize c.action = a at h ⊢
    cases a with
    | updateNodePin node pin value => simp [Action.members, Json.sorted, h value List.mem_cons_self]
    | createVariable r => simp [Action.members, Json.sorted, Json.sorted_ofText?, hvalue r.value h]
    | updateVariable id e => simp [Action.members, Json.sorted, Json.sorted_ofText?, hvalue e.value h]
    | _ =>
      simp [Action.members, WireRequest.members, Json.sorted, Json.sorted_ofText?, Json.sorted_ofTexts, Spot.sorted_toJson,
        hspot, hsize, hpins]
  refine Json.sorted_object ?_
  rw [members, List.map_append, List.map_cons, haction]
  simp [members, Json.sorted, Json.sorted_ofText?]

end Command

end Workboard
