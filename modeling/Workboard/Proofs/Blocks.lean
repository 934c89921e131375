import Mathlib
import Workboard.Command.Batch
import Workboard.Proofs.ValueText

/-! Blocks in text.

A mark of a block starts with a character that it has once, so it cannot begin before its place and end in it: a text
is cut where its mark is (`Batch.cutAt_append`). The characters of a mark are none that JSON has outside of strings, and
none that are escaped, so a JSON text has a mark only if a string or key of it does (`Json.exists_of_infix_chars`). -/

namespace Workboard

section
variable {α : Type} {mark a b : List α} {c : α}

theorem prefix_of_prefix_append (hc : c ∉ mark) (h : mark <+: a ++ c :: b) : mark <+: a := by
  induction a generalizing mark with
  | nil =>
    cases mark with
    | nil => exact List.prefix_rfl
    | cons x m => exact absurd ((List.cons_prefix_cons.mp h).1 ▸ List.mem_cons_self) hc
  | cons y a ih =>
    cases mark with
    | nil => exact List.nil_prefix
    | cons x m =>
      obtain ⟨hxy, hm⟩ := List.cons_prefix_cons.mp h
      exact List.cons_prefix_cons.mpr ⟨hxy, ih (fun hmem => hc (List.mem_cons_of_mem x hmem)) hm⟩

/-- What stands in a text without a character stands on one side of that character. -/
theorem infix_or_of_append (hc : c ∉ mark) (h : mark <:+: a ++ c :: b) : mark <:+: a ∨ mark <:+: b := by
  induction a with
  | nil =>
    rcases List.infix_cons_iff.mp h with hprefix | hinfix
    · exact .inl (prefix_of_prefix_append (a := []) hc hprefix).isInfix
    · exact .inr hinfix
  | cons y a ih =>
    rcases List.infix_cons_iff.mp h with hprefix | hinfix
    · exact .inl (prefix_of_prefix_append hc hprefix).isInfix
    · exact (ih hinfix).imp_left fun h => List.infix_cons_iff.mpr (.inr h)

end

namespace Batch

/-- A mark that starts with a character that it has nowhere else, and has none of the others that are named. -/
structure IsMark (mark : List Char) : Prop where
  starts : ∃ m, mark = '<' :: m ∧ '<' ∉ m
  plain : ∀ c ∈ ['"', '\\', '[', ']', '\x7b', '\x7d', ',', ':'], c ∉ mark

theorem isMark_openTag : IsMark openTag where
  starts := ⟨"commands>".toList, rfl, by decide⟩
  plain := by
    intro c hc
    fin_cases hc <;> decide

theorem isMark_closeTag : IsMark closeTag where
  starts := ⟨"/commands>".toList, rfl, by decide⟩
  plain := by
    intro c hc
    fin_cases hc <;> decide

/-- A text that has no mark of a block. -/
def Untagged (text : List Char) : Prop := ¬ openTag <:+: text ∧ ¬ closeTag <:+: text

instance (text : List Char) : Decidable (Untagged text) := inferInstanceAs (Decidable (_ ∧ _))

variable {mark before : List Char}

/-! ### Cutting -/

/-- A text is cut at its only mark. -/
theorem cutAt_append (hmark : IsMark mark) (h : ¬ mark <:+: before) (rest : List Char) :
    cutAt mark (before ++ (mark ++ rest)) = some (before, rest) := by
  obtain ⟨m, rfl, hm⟩ := hmark.starts
  induction before with
  | nil =>
    rw [List.nil_append, List.cons_append, cutAt, if_pos (by simp)]
    simp
  | cons c r ih =>
    rw [List.infix_cons_iff, not_or] at h
    have hstart : ¬ '<' :: m <+: c :: (r ++ ('<' :: m ++ rest)) := by
      intro hprefix
      obtain ⟨rfl, hrest⟩ := List.cons_prefix_cons.mp hprefix
      exact h.1 (List.cons_prefix_cons.mpr ⟨rfl, prefix_of_prefix_append hm hrest⟩)
    rw [List.cons_append, cutAt, if_neg (by simpa using hstart), ih h.2]
    rfl

end Batch

/-! ### Marks in JSON text -/

namespace Json

open Batch (IsMark)

mutual

/-- The strings and keys of a value. -/
def texts : Json → List String
  | .string s => [s]
  | .array items => itemTexts items
  | .object members => memberTexts members
  | _ => []

def itemTexts : List Json → List String
  | [] => []
  | x :: r => texts x ++ itemTexts r

def memberTexts : List (String × Json) → List String
  | [] => []
  | (k, x) :: r => k :: texts x ++ memberTexts r

end

variable {mark : List Char}

theorem mem_itemTexts {items : List Json} {s : String} : s ∈ itemTexts items ↔ ∃ x ∈ items, s ∈ x.texts := by
  induction items with
  | nil => simp [itemTexts]
  | cons x r ih => simp [itemTexts, ih]

theorem mem_memberTexts {members : List (String × Json)} {s : String} :
    s ∈ memberTexts members ↔ ∃ e ∈ members, s = e.1 ∨ s ∈ e.2.texts := by
  induction members with
  | nil => simp [memberTexts]
  | cons e r ih => simp [memberTexts, ih, or_assoc]

/-- A character is written as it is, or behind a backslash by others than the one that marks start with. -/
theorem escape_cases (c : Char) : escape c = [c] ∨ ∃ tail, escape c = '\\' :: tail ∧ '<' ∉ tail := by
  have hhex (n : Nat) : hexDigit n ≠ '<' := by
    unfold hexDigit
    have hlt : n % 16 < 16 := Nat.mod_lt n (by decide)
    generalize n % 16 = m at hlt
    interval_cases m <;> decide
  unfold escape
  split
  iterate 7 exact .inr ⟨_, rfl, by decide⟩
  split
  · exact .inr ⟨_, rfl, by simp [(hhex _).symm]⟩
  · exact .inl rfl

theorem prefix_of_prefix_escaped {l s : List Char} (hl : '\\' ∉ l) (h : l <+: s.flatMap escape) : l <+: s := by
  induction s generalizing l with
  | nil => exact h
  | cons c r ih =>
    cases l with
    | nil => exact List.nil_prefix
    | cons x l =>
      rw [List.flatMap_cons] at h
      rcases escape_cases c with hc | ⟨tail, hc, -⟩
      · rw [hc, List.singleton_append] at h
        obtain ⟨rfl, hrest⟩ := List.cons_prefix_cons.mp h
        exact List.cons_prefix_cons.mpr ⟨rfl, ih (fun hmem => hl (List.mem_cons_of_mem x hmem)) hrest⟩
      · rw [hc, List.cons_append] at h
        exact absurd ((List.cons_prefix_cons.mp h).1 ▸ List.mem_cons_self) hl

/-- A mark does not begin with characters other than its first. -/
theorem infix_of_infix_append (hmark : IsMark mark) {a b : List Char} (ha : '<' ∉ a) (h : mark <:+: a ++ b) : mark <:+: b := by
  obtain ⟨m, rfl, -⟩ := hmark.starts
  induction a with
  | nil => exact h
  | cons c r ih =>
    rw [List.mem_cons, not_or] at ha
    rcases List.infix_cons_iff.mp h with hprefix | hinfix
    · exact absurd (List.cons_prefix_cons.mp hprefix).1 ha.1
    · exact ih ha.2 hinfix

theorem infix_of_infix_escaped (hmark : IsMark mark) {s : List Char} (h : mark <:+: s.flatMap escape) : mark <:+: s := by
  induction s with
  | nil => exact h
  | cons c r ih =>
    rw [List.infix_cons_iff]
    rw [List.flatMap_cons] at h
    rcases escape_cases c with hc | ⟨tail, hc, htail⟩
    · rw [hc, List.singleton_append] at h
      rcases List.infix_cons_iff.mp h with hprefix | hinfix
      · refine .inl (prefix_of_prefix_escaped (hmark.plain _ (by decide)) ?_)
        rwa [List.flatMap_cons, hc]
      · exact .inr (ih hinfix)
    · rw [hc] at h
      exact .inr (ih (infix_of_infix_append hmark (by simp [htail]) h))

theorem not_infix_of_notMem (hmark : IsMark mark) {l : List Char} (hl : '<' ∉ l) : ¬ mark <:+: l := fun h => by
  obtain ⟨m, rfl, -⟩ := hmark.starts
  exact hl (h.subset List.mem_cons_self)

theorem infix_of_infix_quote (hmark : IsMark mark) {s : String} (h : mark <:+: quote s) : mark <:+: s.toList := by
  have hquote := hmark.plain '"' (by decide)
  have hnil := not_infix_of_notMem hmark (l := []) List.not_mem_nil
  have hbehind := (infix_or_of_append (a := []) hquote h).resolve_left hnil
  exact infix_of_infix_escaped hmark ((infix_or_of_append hquote hbehind).resolve_right hnil)

theorem notMem_number (n : JsonNumber) : '<' ∉ n.text.toList := by
  have hdigits {ds : List Nat} (hds : ∀ d ∈ ds, d < 10) : '<' ∉ Numeral.digitChars ds := by
    intro h
    obtain ⟨d, hd, heq⟩ := List.mem_map.mp h
    have hdigit := Numeral.isDigit_digitChar (hds d hd)
    rw [heq] at hdigit
    exact absurd hdigit (by decide)
  rw [JsonNumber.toList_text]
  cases hn : n.numeral? with
  | none => decide
  | some l =>
    have hwell := JsonNumber.wellFormed_of_numeral? hn
    rw [Option.elim_some, Numeral.chars, List.mem_append, List.mem_append, List.mem_append]
    rintro (((hsign | hwhole) | hfraction) | hexponent)
    · split at hsign
      · exact absurd hsign (by decide)
      · cases hsign
    · exact hdigits hwell.whole_lt hwhole
    · split at hfraction
      · cases hfraction
      · exact hdigits hwell.fraction_lt ((List.mem_cons.mp hfraction).resolve_left (by decide))
    · cases he : l.exponent with
      | none =>
        rw [he] at hexponent
        cases hexponent
      | some e =>
        rw [he, Option.elim_some, Numeral.exponentChars, List.mem_cons, List.mem_cons] at hexponent
        rcases hexponent with h | h | h
        · exact absurd h (by decide)
        · split at h <;> exact absurd h (by decide)
        · exact hdigits (Numeral.digits_lt _) h

theorem infix_of_infix_items (hmark : IsMark mark) {items : List Json} (h : mark <:+: itemChars items) :
    ∃ x ∈ items, mark <:+: x.chars := by
  have hcomma := hmark.plain ',' (by decide)
  match items with
  | [] => exact absurd h (not_infix_of_notMem hmark List.not_mem_nil)
  | [x] => exact ⟨x, List.mem_cons_self, h⟩
  | x :: y :: r =>
    rcases infix_or_of_append hcomma h with hx | hr
    · exact ⟨x, List.mem_cons_self, hx⟩
    · obtain ⟨z, hz, hinfix⟩ := infix_of_infix_items hmark hr
      exact ⟨z, List.mem_cons_of_mem x hz, hinfix⟩

theorem infix_of_infix_members (hmark : IsMark mark) {members : List (String × Json)} (h : mark <:+: memberChars members) :
    ∃ e ∈ members, mark <:+: e.1.toList ∨ mark <:+: e.2.chars := by
  have hcomma := hmark.plain ',' (by decide)
  have hmember {k : String} {x : Json} (h : mark <:+: quote k ++ ':' :: x.chars) : mark <:+: k.toList ∨ mark <:+: x.chars :=
    (infix_or_of_append (hmark.plain ':' (by decide)) h).imp_left (infix_of_infix_quote hmark)
  match members with
  | [] => exact absurd h (not_infix_of_notMem hmark List.not_mem_nil)
  | [e] => exact ⟨e, List.mem_cons_self, hmember h⟩
  | e :: f :: r =>
    have hsplit : memberChars (e :: f :: r) = (quote e.1 ++ ':' :: e.2.chars) ++ ',' :: memberChars (f :: r) := by
      simp [memberChars]
    rw [hsplit] at h
    rcases infix_or_of_append hcomma h with he | hr
    · exact ⟨e, List.mem_cons_self, hmember he⟩
    · obtain ⟨d, hd, hinfix⟩ := infix_of_infix_members hmark hr
      exact ⟨d, List.mem_cons_of_mem e hd, hinfix⟩

/-- A mark in a JSON text is one in a string or key. -/
theorem exists_of_infix_chars (hmark : IsMark mark) {j : Json} (h : mark <:+: j.chars) : ∃ s ∈ j.texts, mark <:+: s.toList := by
  have hnil := not_infix_of_notMem hmark (l := []) List.not_mem_nil
  -- Brackets are no characters of a mark.
  have hinside {a b : Char} {l : List Char} (ha : a ∉ mark) (hb : b ∉ mark) (h : mark <:+: a :: (l ++ [b])) : mark <:+: l :=
    (infix_or_of_append hb ((infix_or_of_append (a := []) ha h).resolve_left hnil)).resolve_right hnil
  induction j using induct with
  | null => exact absurd h (not_infix_of_notMem hmark (by decide))
  | bool b => cases b <;> exact absurd h (not_infix_of_notMem hmark (by decide))
  | number n => exact absurd h (not_infix_of_notMem hmark (notMem_number n))
  | string s => exact ⟨s, List.mem_cons_self, infix_of_infix_quote hmark h⟩
  | array items ih =>
    obtain ⟨x, hx, hinfix⟩ := infix_of_infix_items hmark
      (hinside (hmark.plain '[' (by decide)) (hmark.plain ']' (by decide)) h)
    obtain ⟨s, hs, hmem⟩ := ih x hx hinfix
    exact ⟨s, mem_itemTexts.mpr ⟨x, hx, hs⟩, hmem⟩
  | object members ih =>
    obtain ⟨e, he, hkey | hvalue⟩ := infix_of_infix_members hmark
      (hinside (hmark.plain '\x7b' (by decide)) (hmark.plain '\x7d' (by decide)) h)
    · exact ⟨e.1, mem_memberTexts.mpr ⟨e, he, .inl rfl⟩, hkey⟩
    · obtain ⟨s, hs, hmem⟩ := ih e he hvalue
      exact ⟨s, mem_memberTexts.mpr ⟨e, he, .inr hs⟩, hmem⟩

end Json

end Workboard
