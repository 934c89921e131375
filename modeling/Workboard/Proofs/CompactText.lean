import Workboard.Proofs.PrintedText

/-! The compact text of a JSON value, read again.

It has the lexemes of the value without a blank between them (`Json.scans_chars`), so it shows the same as the indented
text (`JsonSource.ofText_compress`), and two values of one compact text show the same. -/

namespace Workboard

namespace Json

open Lexeme (Scans ends_of_head?)

mutual

/-- The compact text of a value has its lexemes. -/
theorem scans_chars (j : Json) {rest : List Char} {ls : List Lexeme} (hrest : Numeral.Ends rest) (h : Scans rest ls) :
    Scans (j.chars ++ rest) (j.lexemes ++ ls) := by
  cases j with
  | null => exact scans_pretty .null 0 hrest h
  | bool b =>
    cases b with
    | true => exact scans_pretty (.bool true) 0 hrest h
    | false => exact scans_pretty (.bool false) 0 hrest h
  | number n => exact .number n hrest h
  | string s => exact .quote s h
  | array items =>
    have hclose : Scans (']' :: rest) (.closeArray :: ls) := .cons rfl rfl (Nat.le_refl _) h
    have hopen := Scans.cons (c := '[') rfl rfl (Nat.le_refl _) (scans_itemChars items (ends_of_head? (by decide) _) hclose)
    simpa [chars, lexemes] using hopen
  | object members =>
    have hclose : Scans ('\x7d' :: rest) (.closeObject :: ls) := .cons rfl rfl (Nat.le_refl _) h
    have hopen := Scans.cons (c := '\x7b') rfl rfl (Nat.le_refl _)
      (scans_memberChars members (ends_of_head? (by decide) _) hclose)
    simpa [chars, lexemes] using hopen

theorem scans_itemChars (items : List Json) {rest : List Char} {ls : List Lexeme} (hrest : Numeral.Ends rest)
    (h : Scans rest ls) : Scans (itemChars items ++ rest) (itemLexemes items ++ ls) := by
  match items with
  | [] => exact h
  | [x] => exact scans_chars x hrest h
  | x :: y :: r =>
    have hcomma := Scans.cons (c := ',') rfl rfl (Nat.le_refl _) (scans_itemChars (y :: r) hrest h)
    have hx := scans_chars x (ends_comma _) hcomma
    simpa [itemChars, itemLexemes] using hx

theorem scans_memberChars (members : List (String × Json)) {rest : List Char} {ls : List Lexeme}
    (hrest : Numeral.Ends rest) (h : Scans rest ls) :
    Scans (memberChars members ++ rest) (memberLexemes members ++ ls) := by
  have hentry {k : String} {x : Json} {rest : List Char} {ls : List Lexeme} (hx : Scans (x.chars ++ rest) ls) :
      Scans (quote k ++ ':' :: (x.chars ++ rest)) (.text (some k) :: .colon :: ls) :=
    .quote k (.cons rfl rfl (Nat.le_refl _) hx)
  match members with
  | [] => exact h
  | [(k, x)] =>
    have hx := hentry (k := k) (scans_chars x hrest h)
    simpa [memberChars, memberLexemes] using hx
  | (k, x) :: m :: r =>
    have hcomma := Scans.cons (c := ',') rfl rfl (Nat.le_refl _) (scans_memberChars (m :: r) hrest h)
    have hx := hentry (k := k) (scans_chars x (ends_comma _) hcomma)
    simpa [memberChars, memberLexemes] using hx

end

end Json

/-- The compact text of a value shows the value. -/
theorem JsonSource.ofText_compress (j : Json) : JsonSource.ofText j.compress = ⟨j.shown, false⟩ := by
  have hends : Numeral.Ends [] := fun c h => by cases h
  have hscan := Json.scans_chars j hends Lexeme.Scans.nil
  rw [List.append_nil, List.append_nil] at hscan
  refine ofText_of_scans ?_
  rwa [Json.compress, String.toList_ofList]

/-- Values with one text show the same. -/
theorem Json.shown_of_compress {j j' : Json} (h : j.compress = j'.compress) : j.shown = j'.shown := by
  have hsource := JsonSource.ofText_compress j
  rw [h, JsonSource.ofText_compress] at hsource
  exact (congrArg JsonSource.root hsource).symm

end Workboard
