import Mathlib
import Workboard.Proofs.CompactText
import Workboard.Proofs.Records

/-! A JSON value, read from its compact text.

A reader has the members of an object by key (`Json.sorted`). Apart from this a text is read as the value that it was
written for, if the text of each number is read as the number and there are not too many levels of nesting
(`Json.ofText_compress`). -/

namespace Workboard

namespace Json

/-- Induction on a value: a property of all items and members is one of the array or object. -/
theorem induct {P : Json → Prop} (null : P .null) (bool : ∀ b, P (.bool b)) (number : ∀ n, P (.number n))
    (string : ∀ s, P (.string s)) (array : ∀ items : List Json, (∀ x ∈ items, P x) → P (.array items))
    (object : ∀ members : List (String × Json), (∀ e ∈ members, P e.2) → P (.object members)) (j : Json) : P j :=
  @Json.rec P (fun items => ∀ x ∈ items, P x) (fun members => ∀ e ∈ members, P e.2) (fun e => P e.2) null bool number
    string array object (List.forall_mem_nil _) (fun _ _ hx hr => List.forall_mem_cons.mpr ⟨hx, hr⟩)
    (List.forall_mem_nil _) (fun _ _ he hr => List.forall_mem_cons.mpr ⟨he, hr⟩) (fun _ _ hx => hx) j

/-! ### Views of a value -/

mutual

/-- A value with its members by key. -/
def sorted : Json → Json
  | .array items => .array (sortedItems items)
  | .object members => .ofMembers (sortedMembers members)
  | j => j

def sortedItems : List Json → List Json
  | [] => []
  | x :: r => sorted x :: sortedItems r

def sortedMembers : List (String × Json) → List (String × Json)
  | [] => []
  | (k, x) :: r => (k, sorted x) :: sortedMembers r

end

mutual

/-- How many arrays and objects are inside each other. -/
def depth : Json → Nat
  | .array items => itemsDepth items + 1
  | .object members => membersDepth members + 1
  | _ => 0

def itemsDepth : List Json → Nat
  | [] => 0
  | x :: r => max (depth x) (itemsDepth r)

def membersDepth : List (String × Json) → Nat
  | [] => 0
  | (_, x) :: r => max (depth x) (membersDepth r)

end

mutual

/-- The numbers of a value. -/
def numbers : Json → List JsonNumber
  | .number n => [n]
  | .array items => itemNumbers items
  | .object members => memberNumbers members
  | _ => []

def itemNumbers : List Json → List JsonNumber
  | [] => []
  | x :: r => numbers x ++ itemNumbers r

def memberNumbers : List (String × Json) → List JsonNumber
  | [] => []
  | (_, x) :: r => numbers x ++ memberNumbers r

end

variable {items : List Json} {members : List (String × Json)}

theorem sortedItems_eq (items : List Json) : sortedItems items = items.map sorted := by
  induction items with
  | nil => rfl
  | cons x r ih => exact congrArg (x.sorted :: ·) ih

theorem sortedMembers_eq (members : List (String × Json)) : sortedMembers members = members.map fun e => (e.1, e.2.sorted) := by
  induction members with
  | nil => rfl
  | cons e r ih => exact congrArg ((e.1, e.2.sorted) :: ·) ih

theorem depth_le_items {x : Json} (h : x ∈ items) : x.depth ≤ itemsDepth items := by
  induction items with
  | nil => cases h
  | cons y r ih =>
    rcases List.mem_cons.mp h with rfl | h
    · exact le_max_left _ _
    · exact (ih h).trans (le_max_right _ _)

theorem depth_le_members {e : String × Json} (h : e ∈ members) : e.2.depth ≤ membersDepth members := by
  induction members with
  | nil => cases h
  | cons d r ih =>
    rcases List.mem_cons.mp h with rfl | h
    · exact le_max_left _ _
    · exact (ih h).trans (le_max_right _ _)

theorem mem_itemNumbers {n : JsonNumber} : n ∈ itemNumbers items ↔ ∃ x ∈ items, n ∈ x.numbers := by
  induction items with
  | nil => simp [itemNumbers]
  | cons x r ih => simp [itemNumbers, ih]

theorem mem_memberNumbers {n : JsonNumber} : n ∈ memberNumbers members ↔ ∃ e ∈ members, n ∈ e.2.numbers := by
  induction members with
  | nil => simp [memberNumbers]
  | cons e r ih => simp [memberNumbers, ih]

end Json

/-! ### Numbers -/

/-- The text of a number is read as the number. -/
def JsonNumber.ReadsBack (n : JsonNumber) : Prop := Json.ofText (Json.number n).compress = .ok (.number n)

theorem Json.ofText_compress_eq (j : Json) : ofText j.compress = j.shown.value Draft.nestingLimit := by
  have hbind (r : Except Fault Json) : (r >>= fun x => if false then .error .malformed else .ok x) = r := by
    cases r <;> rfl
  unfold ofText
  rw [JsonSource.ofText_compress]
  exact hbind _

theorem JsonNumber.readsBack_iff {n : JsonNumber} : n.ReadsBack ↔ n.shown = .number (some n) := by
  unfold ReadsBack
  rw [Json.ofText_compress_eq, Json.shown]
  constructor
  · intro h
    unfold shown at h ⊢
    cases hn : n.numeral? with
    | none =>
      rw [hn] at h
      cases h
    | some l =>
      rw [hn] at h
      cases hl : l.value with
      | none =>
        simp only [Option.elim_some, hl] at h
        cases h
      | some m =>
        simp only [Option.elim_some, hl] at h ⊢
        rw [Json.number.inj (Except.ok.inj h)]
  · intro h
    rw [h]
    rfl

theorem JsonNumber.readsBack_whole {n : Int} (hlow : -0x8000000000000000 ≤ n) (hhigh : n ≤ 0xFFFFFFFFFFFFFFFF) :
    (JsonNumber.whole n).ReadsBack :=
  readsBack_iff.mpr (Shape.shown_whole hlow hhigh)

/-! ### Reading -/

namespace Draft

theorem ofItems_eq (items : List Json) : ofItems items = items.map ofJson := by
  induction items with
  | nil => rfl
  | cons x r ih => exact congrArg (ofJson x :: ·) ih

theorem ofMembers_eq (members : List (String × Json)) : ofMembers members = members.map fun e => (some e.1, ofJson e.2) := by
  induction members with
  | nil => rfl
  | cons e r ih => exact congrArg ((some e.1, ofJson e.2) :: ·) ih

theorem valueItems_ofItems {room : Nat} {items : List Json} (h : ∀ x ∈ items, (ofJson x).value room = .ok x.sorted) :
    valueItems room (ofItems items) = .ok (items.map Json.sorted) := by
  induction items with
  | nil => rfl
  | cons x r ih =>
    obtain ⟨hx, hr⟩ := List.forall_mem_cons.mp h
    rw [ofItems, valueItems, hx, ih hr]
    rfl

theorem valueMembers_ofMembers {room : Nat} {members : List (String × Json)}
    (h : ∀ e ∈ members, (ofJson e.2).value room = .ok e.2.sorted) :
    valueMembers room (ofMembers members) = .ok (members.map fun e => (e.1, e.2.sorted)) := by
  induction members with
  | nil => rfl
  | cons e r ih =>
    obtain ⟨he, hr⟩ := List.forall_mem_cons.mp h
    rw [ofMembers, valueMembers, he, ih hr]
    rfl

theorem value_ofJson (j : Json) {room : Nat} (hdepth : j.depth < room) : (ofJson j).value room = .ok j.sorted := by
  induction j using Json.induct generalizing room with
  | null | bool | number | string => rfl
  | array items ih =>
    have hroom : Json.itemsDepth items + 1 < room := hdepth
    have hitems := valueItems_ofItems fun x hx =>
      ih x hx (lt_of_le_of_lt (Json.depth_le_items hx) (Nat.lt_sub_of_add_lt hroom))
    rw [ofJson, value, if_neg (by omega), hitems, Json.sorted, Json.sortedItems_eq]
    rfl
  | object members ih =>
    have hroom : Json.membersDepth members + 1 < room := hdepth
    have hmembers := valueMembers_ofMembers fun e he =>
      ih e he (lt_of_le_of_lt (Json.depth_le_members he) (Nat.lt_sub_of_add_lt hroom))
    rw [ofJson, value, if_neg (by omega), hmembers, Json.sorted, Json.sortedMembers_eq]
    rfl

end Draft

namespace Json

/-- A text shows a value as it is if its numbers read back. -/
theorem shown_eq_ofJson {j : Json} (hnumbers : ∀ n ∈ j.numbers, n.ReadsBack) : j.shown = Draft.ofJson j := by
  induction j using Json.induct with
  | null | bool | string => rfl
  | number n => exact JsonNumber.readsBack_iff.mp (hnumbers n (List.mem_singleton_self n))
  | array items ih =>
    rw [shown, shownItems_eq, Draft.ofJson, Draft.ofItems_eq]
    congr 1
    exact List.map_congr_left fun x hx => ih x hx fun n hn => hnumbers n (mem_itemNumbers.mpr ⟨x, hx, hn⟩)
  | object members ih =>
    rw [shown, shownMembers_eq, Draft.ofJson, Draft.ofMembers_eq]
    congr 1
    refine List.map_congr_left fun e he => ?_
    rw [ih e he fun n hn => hnumbers n (mem_memberNumbers.mpr ⟨e, he, hn⟩)]

/-- A value is read from its text, its members by key. -/
theorem ofText_compress {j : Json} (hnumbers : ∀ n ∈ j.numbers, n.ReadsBack) (hdepth : j.depth < Draft.nestingLimit) :
    ofText j.compress = .ok j.sorted := by
  rw [ofText_compress_eq, shown_eq_ofJson hnumbers, Draft.value_ofJson j hdepth]

end Json

end Workboard
