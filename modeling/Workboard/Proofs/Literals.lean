import Mathlib
import Workboard.Apply.Addressing
import Workboard.Proofs.ValueText
import Workboard.Search.Document

/-! Default values, stored and read again.

A value that is stored is read as it is, members by key, if its numbers read back and it is not nested too deeply, and not
at all if it is (`Literal.decode?_storedValue`). Before that a string loses one pair of quotes around it; one that has none
stays as it is, and so it is shown (`Search.shown_storedValue`). -/

namespace Workboard

/-! ### Bytes of a text -/

theorem toList_byteArray (b : ByteArray) : b.toList = b.data.toList := by
  have hloop (i : Nat) (r : List UInt8) : ByteArray.toList.loop b i r = r.reverse ++ b.data.toList.drop i := by
    fun_induction ByteArray.toList.loop b i r with
    | case1 i r hi ih =>
      have hlt : i < b.data.toList.length := hi
      rw [ih, List.drop_eq_getElem_cons hlt, List.reverse_cons, List.append_assoc]
      have hget : b.get! i = b.data.toList[i] := by
        show b.data[i]! = _
        rw [Array.getElem_toList, getElem!_pos b.data i hi]
      rw [hget]
      rfl
    | case2 i r hi =>
      have hle : b.data.toList.length ≤ i := Nat.le_of_not_lt hi
      rw [List.drop_eq_nil_of_le hle, List.append_nil]
  exact hloop 0 []

/-- A text is read from its bytes. -/
theorem fromUTF8?_toUTF8 (s : String) : String.fromUTF8? ⟨s.toUTF8.toList.toArray⟩ = some s := by
  have hbytes : (⟨s.toUTF8.toList.toArray⟩ : ByteArray) = s.toByteArray := by
    rw [toList_byteArray, Array.toArray_toList]
    rfl
  rw [hbytes, String.fromUTF8?, dif_pos s.isValidUTF8]
  rfl

/-! ### Nesting -/

theorem Json.itemsDepth_lt {items : List Json} {room : Nat} (hroom : 0 < room) (h : ∀ x ∈ items, x.depth < room) :
    itemsDepth items < room := by
  induction items with
  | nil => exact hroom
  | cons x r ih =>
    obtain ⟨hx, hr⟩ := List.forall_mem_cons.mp h
    exact max_lt hx (ih hr)

theorem Json.membersDepth_lt {members : List (String × Json)} {room : Nat} (hroom : 0 < room)
    (h : ∀ e ∈ members, e.2.depth < room) : membersDepth members < room := by
  induction members with
  | nil => exact hroom
  | cons e r ih =>
    obtain ⟨he, hr⟩ := List.forall_mem_cons.mp h
    exact max_lt he (ih hr)

namespace Draft

theorem value_of_valueItems {room : Nat} {items l : List Json} (h : valueItems room (ofItems items) = .ok l) :
    ∀ x ∈ items, ∃ v, (ofJson x).value room = .ok v := by
  induction items generalizing l with
  | nil => exact List.forall_mem_nil _
  | cons x r ih =>
    obtain ⟨v, hv, h⟩ := bind_eq_ok h
    obtain ⟨l', hl', -⟩ := bind_eq_ok h
    exact List.forall_mem_cons.mpr ⟨⟨v, hv⟩, ih hl'⟩

theorem value_of_valueMembers {room : Nat} {members l : List (String × Json)}
    (h : valueMembers room (ofMembers members) = .ok l) : ∀ e ∈ members, ∃ v, (ofJson e.2).value room = .ok v := by
  induction members generalizing l with
  | nil => exact List.forall_mem_nil _
  | cons e r ih =>
    obtain ⟨k, -, h⟩ := bind_eq_ok h
    obtain ⟨v, hv, h⟩ := bind_eq_ok h
    obtain ⟨l', hl', -⟩ := bind_eq_ok h
    exact List.forall_mem_cons.mpr ⟨⟨v, hv⟩, ih hl'⟩

/-- A value that is read is not nested too deeply. -/
theorem depth_lt_of_value (j : Json) {room : Nat} (hroom : 0 < room) {v : Json} (h : (ofJson j).value room = .ok v) :
    j.depth < room := by
  induction j using Json.induct generalizing room v with
  | null | bool | number | string => exact hroom
  | array items ih =>
    rw [ofJson, value] at h
    split at h
    · cases h
    · rename_i hlimit
      obtain ⟨l, hl, -⟩ := bind_eq_ok h
      have hitems : Json.itemsDepth items < room - 1 := Json.itemsDepth_lt (by omega) fun x hx => by
        obtain ⟨v, hv⟩ := value_of_valueItems hl x hx
        exact ih x hx (by omega) hv
      exact Nat.add_lt_of_lt_sub hitems
  | object members ih =>
    rw [ofJson, value] at h
    split at h
    · cases h
    · rename_i hlimit
      obtain ⟨l, hl, -⟩ := bind_eq_ok h
      have hmembers : Json.membersDepth members < room - 1 := Json.membersDepth_lt (by omega) fun e he => by
        obtain ⟨v, hv⟩ := value_of_valueMembers hl e he
        exact ih e he (by omega) hv
      exact Nat.add_lt_of_lt_sub hmembers

end Draft

namespace Literal

/-! ### Stored values -/

theorem decode?_toUTF8 (s : String) : decode? s.toUTF8.toList = (Json.ofText s).toOption := by
  unfold decode?
  split
  · rename_i hempty
    have hs : s = "" := by
      have htext := fromUTF8?_toUTF8 s
      rw [List.isEmpty_iff.mp hempty] at htext
      exact (Option.some.inj htext).symm
    rw [hs]
    rfl
  · rw [fromUTF8?_toUTF8]
    rfl

/-- A value whose numbers read back is read from its stored form unless it is nested too deeply. -/
theorem decode?_encode {value : Json} (hnumbers : ∀ n ∈ value.numbers, n.ReadsBack) :
    decode? (encode value) = if value.depth < Draft.nestingLimit then some value.sorted else none := by
  rw [encode, decode?_toUTF8]
  split
  · rename_i hdepth
    rw [Json.ofText_compress hnumbers hdepth]
    rfl
  · rename_i hdeep
    rw [Json.ofText_compress_eq, Json.shown_eq_ofJson hnumbers]
    cases hread : (Draft.ofJson value).value Draft.nestingLimit with
    | error f => rfl
    | ok v => exact absurd (Draft.depth_lt_of_value value (by decide) hread) hdeep

/-! ### Quotes -/

/-- A string without a pair of quotes around it stays as it is. -/
theorem unquote_of_bare {s : String} (h : ∀ inner, s ≠ "\"" ++ inner ++ "\"") : unquote s = s := by
  unfold unquote
  split
  · rename_i r hs
    split
    · rename_i hlast
      refine absurd ?_ (h (.ofList r.dropLast))
      rw [← String.toList_inj, hs]
      simp [List.dropLast_append_getLast? '"' hlast]
    · rfl
  · rfl

theorem depth_normalize (value : Json) : (normalize value).depth = value.depth := by
  cases value <;> rfl

theorem numbers_normalize (value : Json) : (normalize value).numbers = value.numbers := by
  cases value <;> rfl

/-- What is read where a value was stored: the value, members by key. -/
theorem decode?_storedValue {value : Json} (hnumbers : ∀ n ∈ value.numbers, n.ReadsBack) :
    decode? (storedValue value) = if value.depth < Draft.nestingLimit then some (normalize value).sorted else none := by
  rw [← numbers_normalize] at hnumbers
  rw [storedValue, decode?_encode hnumbers, depth_normalize]

end Literal

/-- A string without a pair of quotes around it is shown as it is. -/
theorem Search.shown_storedValue {s : String} (h : ∀ inner, s ≠ "\"" ++ inner ++ "\"") :
    Search.shown (some (storedValue (.string s))) = some s := by
  unfold Search.shown
  rw [Option.bind_some, Literal.decode?_storedValue (fun n hn => by cases hn)]
  exact congrArg some (Literal.unquote_of_bare h)

end Workboard
