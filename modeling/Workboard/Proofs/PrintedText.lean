import Workboard.Json.Draft
import Workboard.Proofs.NumberText

/-! The text of a JSON value, read again.

The indented text of a value has the lexemes of the value and nothing but blanks between them
(`Json.scans_pretty`), and put together these show the value again without a fault (`JsonSource.ofText_pretty`).
What is not the same is numbers: a text shows the number that its digits mean, and `null` where a number is not
finite (`JsonNumber.shown`). -/

namespace Workboard

/-! ### What a text shows -/

/-- What the text of a number shows. -/
def JsonNumber.shown (n : JsonNumber) : Draft := n.numeral?.elim .null fun l => .number l.value

def JsonNumber.lexeme (n : JsonNumber) : Lexeme := n.numeral?.elim .null fun l => .number l.value

namespace Json

mutual

/-- What the text of a value shows. -/
def shown : Json → Draft
  | .null => .null
  | .bool b => .bool b
  | .number n => n.shown
  | .string s => .text (some s)
  | .array items => .array (shownItems items) .closed
  | .object members => .object (shownMembers members) .closed

def shownItems : List Json → List Draft
  | [] => []
  | j :: r => shown j :: shownItems r

def shownMembers : List (String × Json) → List (Option String × Draft)
  | [] => []
  | (k, j) :: r => (some k, shown j) :: shownMembers r

end

mutual

/-- The lexemes of a value. -/
def lexemes : Json → List Lexeme
  | .null => [.null]
  | .bool b => [.bool b]
  | .number n => [n.lexeme]
  | .string s => [.text (some s)]
  | .array items => .openArray :: (itemLexemes items ++ [.closeArray])
  | .object members => .openObject :: (memberLexemes members ++ [.closeObject])

def itemLexemes : List Json → List Lexeme
  | [] => []
  | [x] => lexemes x
  | x :: r => lexemes x ++ .comma :: itemLexemes r

def memberLexemes : List (String × Json) → List Lexeme
  | [] => []
  | [(k, x)] => .text (some k) :: .colon :: lexemes x
  | (k, x) :: r => .text (some k) :: .colon :: (lexemes x ++ .comma :: memberLexemes r)

end

end Json

/-! ### Lexemes -/

namespace Lexeme

variable {text rest : List Char} {ls : List Lexeme} {c : Char}

/-- The lexemes of a text, whatever fuel there is beyond its length. -/
def Scans (text : List Char) (ls : List Lexeme) : Prop := ∀ fuel, text.length ≤ fuel → readAll fuel text = ls

theorem Scans.ofText (h : Scans text ls) : ofText text = ls := h _ (Nat.le_refl _)

theorem Scans.nil : Scans [] [] := fun fuel _ => by cases fuel <;> rfl

theorem Scans.blank (hc : isBlank c = true) (h : Scans text ls) : Scans (c :: text) ls := fun fuel hfuel => by
  cases fuel with
  | zero => cases hfuel
  | succ fuel =>
    rw [readAll, if_pos hc]
    exact h fuel (Nat.le_of_succ_le_succ hfuel)

theorem Scans.cons {l : Lexeme} (hc : isBlank c = false) (hone : readOne c rest = (l, text))
    (hlength : text.length ≤ rest.length) (h : Scans text ls) : Scans (c :: rest) (l :: ls) := fun fuel hfuel => by
  cases fuel with
  | zero => cases hfuel
  | succ fuel =>
    rw [readAll, if_neg (by rw [hc]; exact Bool.false_ne_true), hone]
    exact congrArg (l :: ·) (h fuel (Nat.le_trans hlength (Nat.le_of_succ_le_succ hfuel)))

theorem Scans.lineBreak (level : Nat) (h : Scans text ls) : Scans (Json.lineBreak level ++ text) ls := by
  refine .blank rfl ?_
  induction 2 * level with
  | zero => exact h
  | succ n ih => exact .blank rfl ih

/-! ### Strings -/

/-- A character of a string is read as it was written. -/
theorem readText_escape (s : List Char) (c : Char) (rest : List Char) :
    readText (.plain (some s)) (Json.escape c ++ rest) = readText (.plain (some (c :: s))) rest := by
  unfold Json.escape
  split
  iterate 7 rfl
  rename_i hquote hslash _ _ _ _ _
  split
  · rename_i hcontrol
    have hc : c = Char.ofNat c.toNat := (Char.ofNat_toNat c).symm
    generalize c.toNat = n at hc hcontrol
    subst hc
    interval_cases n <;> rfl
  · rename_i hplain
    have hstep : TextState.step c rest (.plain (some s)) = .next (.plain (some (c :: s))) := by
      show TextState.plainStep (some s) c = _
      unfold TextState.plainStep
      rw [if_neg hquote, if_neg hslash, if_neg hplain]
      rfl
    rw [List.singleton_append, readText, hstep]

theorem readText_quote (done l rest : List Char) :
    readText (.plain (some done)) (l.flatMap Json.escape ++ '"' :: rest) =
      (.text (some (String.ofList (done.reverse ++ l))), rest) := by
  induction l generalizing done with
  | nil =>
    rw [List.append_nil]
    rfl
  | cons c l ih =>
    rw [List.flatMap_cons, List.append_assoc, readText_escape, ih, List.reverse_cons, List.append_assoc]
    rfl

theorem Scans.quote (s : String) (h : Scans rest ls) : Scans (Json.quote s ++ rest) (.text (some s) :: ls) := by
  have hread : readOne '"' ((s.toList.flatMap Json.escape ++ ['"']) ++ rest) = (.text (some s), rest) := by
    rw [List.append_assoc]
    refine (readText_quote [] s.toList rest).trans ?_
    rw [List.reverse_nil, List.nil_append, String.ofList_toList]
  exact .cons rfl hread (List.suffix_append _ _).length_le h

/-! ### Numbers -/

/-- A number is read by its digits, if its text does not go on with one. -/
theorem Scans.number (n : JsonNumber) (hrest : Numeral.Ends rest) (h : Scans rest ls) :
    Scans (n.text.toList ++ rest) (n.lexeme :: ls) := by
  rw [JsonNumber.toList_text]
  unfold JsonNumber.lexeme
  cases hn : n.numeral? with
  | none =>
    show Scans ('n' :: (['u', 'l', 'l'] ++ rest)) _
    exact .cons rfl rfl (List.suffix_append _ _).length_le h
  | some l =>
    have hwell := JsonNumber.wellFormed_of_numeral? hn
    have hread := Numeral.read_chars l hwell hrest
    obtain ⟨d, ds, hd⟩ := List.exists_cons_of_ne_nil hwell.whole_ne_nil
    -- A literal starts with its sign or its first digit.
    have hstart : ∃ c r, l.chars = c :: r ∧ (c = '-' ∨ ∃ d < 10, c = Nat.digitChar d) := by
      unfold Numeral.chars
      rw [hd]
      cases l.negative with
      | true => exact ⟨'-', _, rfl, .inl rfl⟩
      | false => exact ⟨Nat.digitChar d, _, rfl, .inr ⟨d, hwell.whole_lt d (hd ▸ List.mem_cons_self), rfl⟩⟩
    obtain ⟨c, r, hchars, hc⟩ := hstart
    have hone : isBlank c = false ∧ readOne c (r ++ rest) = readNumber (c :: (r ++ rest)) := by
      rcases hc with rfl | ⟨d, hlt, rfl⟩
      · exact ⟨rfl, rfl⟩
      · interval_cases d <;> exact ⟨rfl, rfl⟩
    rw [Option.elim_some, hchars, List.cons_append]
    refine .cons hone.1 (hone.2.trans ?_) (List.suffix_append _ _).length_le h
    rw [hchars, List.cons_append] at hread
    unfold readNumber
    rw [hread]
    rfl

theorem ends_of_head? {c : Char} (hc : Numeral.isDigit c = false ∧ c ≠ '.' ∧ c ≠ 'e' ∧ c ≠ 'E') (r : List Char) :
    Numeral.Ends (c :: r) := fun _ h => Option.some.inj h ▸ hc

end Lexeme

/-! ### Values -/

namespace Json

open Lexeme (Scans ends_of_head?)

theorem ends_lineBreak (level : Nat) (rest : List Char) : Numeral.Ends (lineBreak level ++ rest) :=
  ends_of_head? (by decide) _

theorem ends_comma (rest : List Char) : Numeral.Ends (',' :: rest) := ends_of_head? (by decide) _

mutual

/-- The indented text of a value has its lexemes. -/
theorem scans_pretty (j : Json) (level : Nat) {rest : List Char} {ls : List Lexeme} (hrest : Numeral.Ends rest)
    (h : Scans rest ls) : Scans (j.prettyChars level ++ rest) (j.lexemes ++ ls) := by
  cases j with
  | null =>
    show Scans ('n' :: (['u', 'l', 'l'] ++ rest)) _
    exact .cons rfl rfl (List.suffix_append _ _).length_le h
  | bool b =>
    cases b with
    | true =>
      show Scans ('t' :: (['r', 'u', 'e'] ++ rest)) _
      exact .cons rfl rfl (List.suffix_append _ _).length_le h
    | false =>
      show Scans ('f' :: (['a', 'l', 's', 'e'] ++ rest)) _
      exact .cons rfl rfl (List.suffix_append _ _).length_le h
  | number n => exact .number n hrest h
  | string s => exact .quote s h
  | array items =>
    cases items with
    | nil => exact .cons rfl rfl (by simp) (.cons rfl rfl (List.suffix_append _ _).length_le h)
    | cons x r =>
      have hclose : Scans (lineBreak level ++ ']' :: rest) (.closeArray :: ls) :=
        .lineBreak level (.cons rfl rfl (Nat.le_refl _) h)
      have hitems := scans_prettyItems (x :: r) (level + 1) (List.cons_ne_nil x r) (ends_lineBreak level _) hclose
      have hopen := Scans.cons (c := '[') rfl rfl (Nat.le_refl _) hitems
      simpa [prettyChars, lexemes] using hopen
  | object members =>
    cases members with
    | nil => exact .cons rfl rfl (by simp) (.cons rfl rfl (List.suffix_append _ _).length_le h)
    | cons m r =>
      have hclose : Scans (lineBreak level ++ '\x7d' :: rest) (.closeObject :: ls) :=
        .lineBreak level (.cons rfl rfl (Nat.le_refl _) h)
      have hmembers := scans_prettyMembers (m :: r) (level + 1) (List.cons_ne_nil m r) (ends_lineBreak level _) hclose
      have hopen := Scans.cons (c := '\x7b') rfl rfl (Nat.le_refl _) hmembers
      simpa [prettyChars, lexemes] using hopen

theorem scans_prettyItems (items : List Json) (level : Nat) (hne : items ≠ []) {rest : List Char}
    {ls : List Lexeme} (hrest : Numeral.Ends rest) (h : Scans rest ls) :
    Scans (prettyItems level items ++ rest) (itemLexemes items ++ ls) := by
  match items with
  | [] => exact absurd rfl hne
  | [x] =>
    have hx := scans_pretty x level hrest h
    simpa [prettyItems, itemLexemes] using hx.lineBreak level
  | x :: y :: r =>
    have hr := scans_prettyItems (y :: r) level (List.cons_ne_nil y r) hrest h
    have hcomma := Scans.cons (c := ',') rfl rfl (Nat.le_refl _) hr
    have hx := scans_pretty x level (ends_comma _) hcomma
    simpa [prettyItems, itemLexemes] using hx.lineBreak level

theorem scans_prettyMembers (members : List (String × Json)) (level : Nat) (hne : members ≠ []) {rest : List Char}
    {ls : List Lexeme} (hrest : Numeral.Ends rest) (h : Scans rest ls) :
    Scans (prettyMembers level members ++ rest) (memberLexemes members ++ ls) := by
  have hentry {k : String} {x : Json} {rest : List Char} {ls : List Lexeme}
      (hx : Scans (x.prettyChars level ++ rest) ls) :
      Scans (lineBreak level ++ (quote k ++ ':' :: ' ' :: (x.prettyChars level ++ rest))) (.text (some k) :: .colon :: ls) :=
    .lineBreak level (.quote k (.cons rfl rfl (by simp) (.blank rfl hx)))
  match members with
  | [] => exact absurd rfl hne
  | [(k, x)] =>
    have hx := hentry (k := k) (scans_pretty x level hrest h)
    simpa [prettyMembers, memberLexemes] using hx
  | (k, x) :: m :: r =>
    have hr := scans_prettyMembers (m :: r) level (List.cons_ne_nil m r) hrest h
    have hcomma := Scans.cons (c := ',') rfl rfl (Nat.le_refl _) hr
    have hx := hentry (k := k) (scans_pretty x level (ends_comma _) hcomma)
    simpa [prettyMembers, memberLexemes] using hx

end

end Json

/-! ### Drafts -/

namespace Draft

open Json (shown shownItems shownMembers itemLexemes memberLexemes)

mutual

/-- The lexemes of a value are put together to what it shows. -/
theorem assemble_lexemes (j : Json) (first : Bool) (s : List Frame) (rest : List Lexeme) :
    assemble (.value first) s (j.lexemes ++ rest) = assemble (.separator j.shown) s rest := by
  cases j with
  | null | bool | string => rfl
  | number n =>
    show assemble (.value first) s (n.lexeme :: rest) = assemble (.separator n.shown) s rest
    unfold JsonNumber.lexeme JsonNumber.shown
    cases n.numeral? <;> rfl
  | array items =>
    cases items with
    | nil => rfl
    | cons x r =>
      have hitems := assemble_items (x :: r) (List.cons_ne_nil x r) true [] s rest
      have hopen : (Json.array (x :: r)).lexemes ++ rest =
          .openArray :: (itemLexemes (x :: r) ++ .closeArray :: rest) := by simp [Json.lexemes]
      rw [hopen]
      exact hitems
  | object members =>
    cases members with
    | nil => rfl
    | cons m r =>
      have hmembers := assemble_members (m :: r) (List.cons_ne_nil m r) true [] s rest
      have hopen : (Json.object (m :: r)).lexemes ++ rest =
          .openObject :: (memberLexemes (m :: r) ++ .closeObject :: rest) := by simp [Json.lexemes]
      rw [hopen]
      exact hmembers

theorem assemble_items (items : List Json) (hne : items ≠ []) (first : Bool) (done : List Draft) (s : List Frame)
    (rest : List Lexeme) :
    assemble (.value first) (.array done :: s) (itemLexemes items ++ .closeArray :: rest) =
      assemble (.separator (.array (done.reverse ++ shownItems items) .closed)) s rest := by
  match items with
  | [] => exact absurd rfl hne
  | [x] =>
    have hx := assemble_lexemes x first (.array done :: s) (.closeArray :: rest)
    refine hx.trans ?_
    rw [assemble, List.reverse_cons]
    rfl
  | x :: y :: r =>
    have hx := assemble_lexemes x first (.array done :: s) (.comma :: (itemLexemes (y :: r) ++ .closeArray :: rest))
    have hr := assemble_items (y :: r) (List.cons_ne_nil y r) false (x.shown :: done) s rest
    have hlexemes : itemLexemes (x :: y :: r) ++ .closeArray :: rest =
        x.lexemes ++ .comma :: (itemLexemes (y :: r) ++ .closeArray :: rest) := by simp [itemLexemes]
    rw [hlexemes, hx, assemble, hr, List.reverse_cons, List.append_assoc]
    rfl

theorem assemble_members (members : List (String × Json)) (hne : members ≠ []) (first : Bool)
    (done : List (Option String × Draft)) (s : List Frame) (rest : List Lexeme) :
    assemble (.key done first) s (memberLexemes members ++ .closeObject :: rest) =
      assemble (.separator (.object (done.reverse ++ shownMembers members) .closed)) s rest := by
  match members with
  | [] => exact absurd rfl hne
  | [(k, x)] =>
    have hx := assemble_lexemes x false (.object done (some k) :: s) (.closeObject :: rest)
    refine hx.trans ?_
    rw [assemble, List.reverse_cons]
    rfl
  | (k, x) :: m :: r =>
    have hx := assemble_lexemes x false (.object done (some k) :: s)
      (.comma :: (memberLexemes (m :: r) ++ .closeObject :: rest))
    have hr := assemble_members (m :: r) (List.cons_ne_nil m r) false ((some k, x.shown) :: done) s rest
    have hlexemes : memberLexemes ((k, x) :: m :: r) ++ .closeObject :: rest =
        .text (some k) :: .colon :: (x.lexemes ++ .comma :: (memberLexemes (m :: r) ++ .closeObject :: rest)) := by
      simp [memberLexemes]
    have hkey : assemble (.key done first) s
          (.text (some k) :: .colon :: (x.lexemes ++ .comma :: (memberLexemes (m :: r) ++ .closeObject :: rest))) =
        assemble (.value false) (.object done (some k) :: s)
          (x.lexemes ++ .comma :: (memberLexemes (m :: r) ++ .closeObject :: rest)) := rfl
    rw [hlexemes, hkey, hx, assemble, hr, List.reverse_cons, List.append_assoc]
    rfl

end

end Draft

/-- A text with the lexemes of a value shows the value, and nothing follows it. -/
theorem JsonSource.ofText_of_scans {text : String} {j : Json} (h : Lexeme.Scans text.toList j.lexemes) :
    JsonSource.ofText text = ⟨j.shown, false⟩ := by
  have hroot := Draft.assemble_lexemes j false [] []
  rw [List.append_nil] at hroot
  unfold JsonSource.ofText
  rw [h.ofText, hroot]
  rfl

/-- The indented text of a value shows the value. -/
theorem JsonSource.ofText_pretty (j : Json) : JsonSource.ofText j.pretty = ⟨j.shown, false⟩ := by
  have hends : Numeral.Ends [] := fun c h => by cases h
  have hscan := Json.scans_pretty j 0 hends Lexeme.Scans.nil
  rw [List.append_nil, List.append_nil] at hscan
  refine ofText_of_scans ?_
  rwa [Json.pretty, String.toList_ofList]

end Workboard
