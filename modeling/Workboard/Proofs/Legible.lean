import Mathlib
import Workboard.Json.Draft
import Workboard.Proofs.Proper

/-! Texts that have a value.

What is put together from lexemes has a value only if it is whole: nothing in it is broken, and its strings and keys have
a content. Every lexeme goes into it, so all the lexemes of a text with a value are legible (`Json.legible_of_ofText`). -/

namespace Workboard

/-- A lexeme that a value can be read from: nothing broken, and no string without a content. -/
def Lexeme.Legible : Lexeme → Prop
  | .broken .. => False
  | .text content => content.isSome
  | _ => True

namespace Draft

mutual

/-- A draft without a fault, whose strings and keys have a content. -/
def Whole : Draft → Prop
  | .text content => content.isSome
  | .array items ending => WholeItems items ∧ ending = .closed
  | .object members ending => WholeMembers members ∧ ending = .closed
  | .broken .. => False
  | _ => True

def WholeItems : List Draft → Prop
  | [] => True
  | d :: r => Whole d ∧ WholeItems r

def WholeMembers : List (Option String × Draft) → Prop
  | [] => True
  | (k, d) :: r => k.isSome ∧ Whole d ∧ WholeMembers r

end

/-! ### Values -/

theorem isSome_of_textValue {content : Option String} {s : String} (h : textValue content = .ok s) : content.isSome := by
  cases content with
  | none => cases h
  | some s => rfl

theorem closed_of_used {ending : Ending} {u : Unit} (h : Ending.used ending = .ok u) : ending = .closed := by
  cases ending with
  | closed => rfl
  | broken announced used skipped => cases h

mutual

/-- A draft that has a value is whole. -/
theorem whole_of_value {room : Nat} (d : Draft) {j : Json} (h : d.value room = .ok j) : d.Whole := by
  cases d with
  | text content =>
    cases content with
    | none => cases h
    | some s => rfl
  | array items ending =>
    rw [value] at h
    split at h
    · cases h
    · obtain ⟨js, hitems, h⟩ := bind_eq_ok h
      obtain ⟨u, hending, -⟩ := bind_eq_ok h
      exact ⟨whole_of_valueItems items hitems, closed_of_used hending⟩
  | object members ending =>
    rw [value] at h
    split at h
    · cases h
    · obtain ⟨js, hmembers, h⟩ := bind_eq_ok h
      obtain ⟨u, hending, -⟩ := bind_eq_ok h
      exact ⟨whole_of_valueMembers members hmembers, closed_of_used hending⟩
  | broken start used skipped => cases h
  | _ => trivial

theorem whole_of_valueItems {room : Nat} (l : List Draft) {js : List Json} (h : valueItems room l = .ok js) :
    WholeItems l := by
  cases l with
  | nil => trivial
  | cons d r =>
    rw [valueItems] at h
    obtain ⟨j, hd, h⟩ := bind_eq_ok h
    obtain ⟨js, hr, -⟩ := bind_eq_ok h
    exact ⟨whole_of_value d hd, whole_of_valueItems r hr⟩

theorem whole_of_valueMembers {room : Nat} (l : List (Option String × Draft)) {js : List (String × Json)}
    (h : valueMembers room l = .ok js) : WholeMembers l := by
  match l with
  | [] => trivial
  | (k, d) :: r =>
    rw [valueMembers] at h
    obtain ⟨key, hk, h⟩ := bind_eq_ok h
    obtain ⟨j, hd, h⟩ := bind_eq_ok h
    obtain ⟨js, hr, -⟩ := bind_eq_ok h
    exact ⟨isSome_of_textValue hk, whole_of_value d hd, whole_of_valueMembers r hr⟩

end

/-! ### Putting lexemes together -/

@[simp] theorem wholeItems_append {l r : List Draft} : WholeItems (l ++ r) ↔ WholeItems l ∧ WholeItems r := by
  induction l with
  | nil => simp [WholeItems]
  | cons d l ih => simp [WholeItems, ih, and_assoc]

@[simp] theorem wholeItems_reverse {l : List Draft} : WholeItems l.reverse ↔ WholeItems l := by
  induction l with
  | nil => rfl
  | cons d l ih => simp [WholeItems, ih, and_comm]

@[simp] theorem wholeMembers_append {l r : List (Option String × Draft)} :
    WholeMembers (l ++ r) ↔ WholeMembers l ∧ WholeMembers r := by
  induction l with
  | nil => simp [WholeMembers]
  | cons e l ih => simp [WholeMembers, ih, and_assoc]

@[simp] theorem wholeMembers_reverse {l : List (Option String × Draft)} : WholeMembers l.reverse ↔ WholeMembers l := by
  induction l with
  | nil => rfl
  | cons e l ih =>
    simp only [List.reverse_cons, wholeMembers_append, ih, WholeMembers, and_true]
    tauto

@[simp] theorem not_whole_misplaced (x : Lexeme) : ¬ (misplaced x).Whole := by
  cases x <;> exact id

@[simp] theorem keyless_ne_closed (first : Bool) (x : Lexeme) : keyless first x ≠ .closed := by
  unfold keyless
  split <;> exact Ending.noConfusion

/-- What stands in an open array or object is whole. -/
def Frame.Whole : Frame → Prop
  | .array items => WholeItems items
  | .object members k => WholeMembers members ∧ k.isSome

/-- What was read last is whole. -/
def Due.Whole : Due → Prop
  | .value _ => True
  | .key members _ => WholeMembers members
  | .colon members k => WholeMembers members ∧ k.isSome
  | .separator d => d.Whole

/-- What is filled in is whole if the result is, and so is everything around it. -/
theorem whole_fill {s : List Frame} {d : Draft} (h : (fill s d).Whole) : d.Whole ∧ ∀ f ∈ s, f.Whole := by
  induction s generalizing d with
  | nil => exact ⟨h, by simp⟩
  | cons f s ih =>
    rw [List.forall_mem_cons]
    cases f with
    | array items =>
      obtain ⟨hd, hs⟩ := ih h
      obtain ⟨hd, hitems⟩ := wholeItems_reverse.mp hd.1
      exact ⟨hd, hitems, hs⟩
    | object members k =>
      obtain ⟨hd, hs⟩ := ih h
      obtain ⟨hk, hd, hmembers⟩ := wholeMembers_reverse.mp hd.1
      exact ⟨hd, ⟨hmembers, hk⟩, hs⟩

/-- If what comes of lexemes is whole, they are legible, and what had been read before is whole. -/
theorem legible_of_assemble {due : Due} {s : List Frame} {l : List Lexeme} (hroot : (assemble due s l).root.Whole)
    (htrailing : (assemble due s l).trailing = false) :
    due.Whole ∧ (∀ f ∈ s, f.Whole) ∧ ∀ x ∈ l, x.Legible := by
  have taken {x : Lexeme} {r : List Lexeme} (hx : x.Legible) (hr : ∀ y ∈ r, y.Legible) : ∀ y ∈ x :: r, y.Legible :=
    List.forall_mem_cons.mpr ⟨hx, hr⟩
  fun_induction assemble due s l with
  | case1 d rest =>
    obtain rfl : rest = [] := by simpa using htrailing
    exact ⟨hroot, List.forall_mem_nil _, List.forall_mem_nil _⟩
  -- Where a value is due: what is read is what is legible.
  | case7 | case8 | case9 | case10 | case12 =>
    rename_i ih
    obtain ⟨hdue, hs, hr⟩ := ih hroot htrailing
    exact ⟨trivial, hs, taken hdue hr⟩
  | case11 first s r ih =>
    obtain ⟨-, hs, hr⟩ := ih hroot htrailing
    exact ⟨trivial, (List.forall_mem_cons.mp hs).2, taken trivial hr⟩
  | case13 r s items ih =>
    obtain ⟨hdue, hs, hr⟩ := ih hroot htrailing
    exact ⟨trivial, List.forall_mem_cons.mpr ⟨wholeItems_reverse.mp hdue.1, hs⟩, taken trivial hr⟩
  -- Where a key or its colon is due.
  | case16 members first s r key ih =>
    obtain ⟨hdue, hs, hr⟩ := ih hroot htrailing
    exact ⟨hdue.1, hs, taken hdue.2 hr⟩
  | case17 members s r ih =>
    obtain ⟨hdue, hs, hr⟩ := ih hroot htrailing
    exact ⟨wholeMembers_reverse.mp hdue.1, hs, taken trivial hr⟩
  | case20 members key s r ih =>
    obtain ⟨-, hs, hr⟩ := ih hroot htrailing
    obtain ⟨hframe, hs⟩ := List.forall_mem_cons.mp hs
    exact ⟨hframe, hs, taken trivial hr⟩
  -- Behind a value: it goes into the frame around it.
  | case22 d items s r ih =>
    obtain ⟨-, hs, hr⟩ := ih hroot htrailing
    obtain ⟨⟨hd, hitems⟩, hs⟩ := List.forall_mem_cons.mp hs
    exact ⟨hd, List.forall_mem_cons.mpr ⟨hitems, hs⟩, taken trivial hr⟩
  | case23 d items s r ih =>
    obtain ⟨hdue, hs, hr⟩ := ih hroot htrailing
    obtain ⟨hd, hitems⟩ := wholeItems_reverse.mp hdue.1
    exact ⟨hd, List.forall_mem_cons.mpr ⟨hitems, hs⟩, taken trivial hr⟩
  | case25 d members key s r ih =>
    obtain ⟨⟨hkey, hd, hmembers⟩, hs, hr⟩ := ih hroot htrailing
    exact ⟨hd, List.forall_mem_cons.mpr ⟨⟨hmembers, hkey⟩, hs⟩, taken trivial hr⟩
  | case26 d members key s r ih =>
    obtain ⟨hdue, hs, hr⟩ := ih hroot htrailing
    obtain ⟨hkey, hd, hmembers⟩ := wholeMembers_reverse.mp hdue.1
    exact ⟨hd, List.forall_mem_cons.mpr ⟨⟨hmembers, hkey⟩, hs⟩, taken trivial hr⟩
  -- Where reading stops a fault is filled in, and nothing around a fault is whole.
  | case2 | case3 | case4 | case5 | case6 | case14 | case15 | case18 | case19 | case21 | case24 | case27 =>
    exact absurd (whole_fill hroot).1 (by simp [Whole, WholeMembers])

end Draft

theorem Json.legible_of_ofText {text : String} {j : Json} (h : ofText text = .ok j) :
    ∀ x ∈ Lexeme.ofText text.toList, x.Legible := by
  obtain ⟨j', hvalue, h⟩ := bind_eq_ok h
  have htrailing : (JsonSource.ofText text).trailing = false := by
    by_contra htrailing
    rw [if_pos (Bool.eq_true_of_not_eq_false htrailing)] at h
    cases h
  exact (Draft.legible_of_assemble (Draft.whole_of_value _ hvalue) htrailing).2.2

end Workboard
