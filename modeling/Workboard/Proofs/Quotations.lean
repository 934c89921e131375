import Mathlib
import Workboard.Proofs.Legible
import Workboard.Proofs.Repeats
import Workboard.Proofs.Segments
import Workboard.Proofs.ValueText

/-! Marks in the strings of a JSON text.

Several marks stand in a text `InOrder`, one behind the other. Outside of its strings a JSON text has no character that a
mark starts with, and inside of them an escape neither begins nor goes on with a mark; so the marks of a text that can be
read stand in its strings, and in the same order (`Lexeme.inOrder_quoted`). -/

namespace Workboard

namespace Batch

variable {mark : List Char} {marks : List (List Char)} {a b : List Char} {c : Char}

theorem InOrder.append_left (h : InOrder marks b) (a : List Char) : InOrder marks (a ++ b) := by
  cases marks with
  | nil => trivial
  | cons mark marks =>
    obtain ⟨before, after, rfl, h⟩ := h
    exact ⟨a ++ before, after, by rw [List.append_assoc], h⟩

theorem InOrder.append {others : List (List Char)} (ha : InOrder marks a) (hb : InOrder others b) :
    InOrder (marks ++ others) (a ++ b) := by
  induction marks generalizing a with
  | nil => exact hb.append_left a
  | cons mark marks ih =>
    obtain ⟨before, after, rfl, h⟩ := ha
    exact ⟨before, after ++ b, by simp only [List.append_assoc], ih h⟩

/-- A text without the first character of a mark can be dropped from the front. -/
theorem InOrder.of_append (hmarks : ∀ m ∈ marks, IsMark m) (ha : '<' ∉ a) (h : InOrder marks (a ++ b)) :
    InOrder marks b := by
  cases marks with
  | nil => trivial
  | cons mark marks =>
    obtain ⟨before, after, heq, h⟩ := h
    obtain ⟨m, rfl, -⟩ := (hmarks mark List.mem_cons_self).starts
    rcases List.append_eq_append_iff.mp heq with ⟨l, rfl, rfl⟩ | ⟨l, rfl, hl⟩
    · exact ⟨l, after, rfl, h⟩
    · -- Otherwise the mark would begin in what is dropped.
      cases l with
      | nil => exact ⟨[], after, hl.symm, h⟩
      | cons d l =>
        obtain rfl := (List.cons.inj hl).1
        exact absurd (List.mem_append_right before List.mem_cons_self) ha

/-- At a character that no mark has the marks come apart. -/
theorem InOrder.split (hmarks : ∀ m ∈ marks, m ≠ [] ∧ c ∉ m) (h : InOrder marks (a ++ c :: b)) :
    ∃ l r, marks = l ++ r ∧ InOrder l a ∧ InOrder r b := by
  induction marks generalizing a with
  | nil => exact ⟨[], [], rfl, trivial, trivial⟩
  | cons mark marks ih =>
    obtain ⟨before, after, heq, h⟩ := h
    obtain ⟨hne, hc⟩ := hmarks mark List.mem_cons_self
    rcases List.append_eq_append_iff.mp heq with ⟨l, rfl, hl⟩ | ⟨l, rfl, hl⟩
    · -- The mark begins behind the character, or it would have it.
      cases l with
      | nil =>
        obtain ⟨d, m, rfl⟩ := List.exists_cons_of_ne_nil hne
        exact absurd ((List.cons.inj hl).1 ▸ List.mem_cons_self) hc
      | cons d l =>
        obtain ⟨-, rfl⟩ := List.cons.inj hl
        exact ⟨[], mark :: marks, rfl, trivial, l, after, rfl, h⟩
    · -- The mark begins before the character, and ends before it.
      have later (k : List Char) (h : InOrder marks (k ++ c :: b)) (hk : l = mark ++ k) :
          ∃ l' r, mark :: marks = l' ++ r ∧ InOrder l' (before ++ l) ∧ InOrder r b := by
        obtain ⟨l', r, rfl, hl', hr⟩ := ih (fun m hm => hmarks m (List.mem_cons_of_mem mark hm)) h
        exact ⟨mark :: l', r, rfl, ⟨before, k, by rw [hk], hl'⟩, hr⟩
      rcases List.append_eq_append_iff.mp hl with ⟨k, hk, rfl⟩ | ⟨k, rfl, hk⟩
      · exact later k h hk
      · cases k with
        | nil => exact later [] (hk ▸ h) (by simp)
        | cons d k =>
          obtain rfl := (List.cons.inj hk).1
          exact absurd (List.mem_append_right l List.mem_cons_self) hc

/-- What follows a text and has nothing of the marks can be dropped. -/
theorem InOrder.of_append_right (hmarks : ∀ m ∈ marks, IsMark m) (hb : ∀ c ∈ b, c ≠ '<' ∧ ∀ m ∈ marks, c ∉ m)
    (h : InOrder marks (a ++ b)) : InOrder marks a := by
  cases b with
  | nil => rwa [List.append_nil] at h
  | cons c b =>
    have hne (m : List Char) (hm : m ∈ marks) : m ≠ [] := by
      obtain ⟨m, rfl, -⟩ := (hmarks m hm).starts
      exact List.cons_ne_nil '<' m
    obtain ⟨l, r, rfl, hl, hr⟩ := h.split fun m hm => ⟨hne m hm, (hb c List.mem_cons_self).2 m hm⟩
    cases r with
    | nil => rwa [List.append_nil]
    | cons mark r =>
      obtain ⟨before, after, rfl, -⟩ := hr
      obtain ⟨m, rfl, -⟩ := (hmarks mark (by simp)).starts
      exact absurd rfl (hb '<' (by simp)).1

end Batch

namespace Lexeme

open Batch (IsMark InOrder)

/-! ### Strings -/

/-- Between the quotes of a string: characters that stand for themselves, and escapes. -/
inductive Unescapes : List Char → List Char → Prop where
  | nil : Unescapes [] []
  | kept {c raw content} : c ≠ '\\' → Unescapes raw content → Unescapes (c :: raw) (c :: content)
  | escape {esc raw x content} : '<' ∉ esc → Unescapes raw content →
      Unescapes ('\\' :: (esc ++ raw)) (x ++ content)

/-- What begins a string, and the marks behind it, are in its content, too. -/
theorem Unescapes.inOrder {raw content front after : List Char} {marks : List (List Char)} (h : Unescapes raw content)
    (hfront : '\\' ∉ front) (hmarks : ∀ m ∈ marks, IsMark m) (hraw : raw = front ++ after) (hafter : InOrder marks after) :
    ∃ after', content = front ++ after' ∧ InOrder marks after' := by
  induction h generalizing front marks after with
  | nil =>
    obtain ⟨rfl, rfl⟩ := List.append_eq_nil_iff.mp hraw.symm
    exact ⟨[], rfl, hafter⟩
  | @kept c raw content hc h ih =>
    cases front with
    | cons d front =>
      obtain ⟨rfl, rfl⟩ := List.cons.inj hraw
      obtain ⟨after', rfl, hafter'⟩ := ih (fun hmem => hfront (List.mem_cons_of_mem c hmem)) hmarks rfl hafter
      exact ⟨after', rfl, hafter'⟩
    | nil =>
      obtain rfl := hraw
      refine ⟨c :: content, rfl, ?_⟩
      cases marks with
      | nil => trivial
      | cons mark marks =>
        -- Either the first mark starts with this character, or it stands behind it.
        obtain ⟨before, rest, heq, hrest⟩ := hafter
        have hothers : ∀ m ∈ marks, IsMark m := fun m hm => hmarks m (List.mem_cons_of_mem mark hm)
        cases before with
        | nil =>
          obtain ⟨m, rfl, -⟩ := (hmarks mark List.mem_cons_self).starts
          obtain ⟨rfl, rfl⟩ := List.cons.inj heq
          have hm : '\\' ∉ m := fun hmem =>
            (hmarks _ List.mem_cons_self).plain '\\' (by decide) (List.mem_cons_of_mem '<' hmem)
          obtain ⟨after', rfl, hafter'⟩ := ih hm hothers rfl hrest
          exact ⟨[], after', rfl, hafter'⟩
        | cons d before =>
          obtain ⟨rfl, rfl⟩ := List.cons.inj heq
          obtain ⟨content', rfl, hcontent⟩ := ih (by simp) hmarks (List.nil_append _).symm ⟨before, rest, rfl, hrest⟩
          exact hcontent.append_left [c]
  | @escape esc raw x content hesc h ih =>
    cases front with
    | cons d front => exact absurd ((List.cons.inj hraw).1 ▸ List.mem_cons_self) hfront
    | nil =>
      obtain rfl := hraw
      have hraw : InOrder marks raw := .of_append (a := '\\' :: esc) hmarks (by simp [hesc]) hafter
      obtain ⟨content', rfl, hcontent⟩ := ih (by simp) hmarks (List.nil_append _).symm hraw
      exact ⟨_, rfl, hcontent.append_left x⟩

namespace TextState

theorem content_behindUnit (s : Content) (lead : Option Nat) (unit : Nat) :
    (behindUnit s lead unit).content = none ∨ ∃ x, (behindUnit s lead unit).content = s.map (x ++ ·) := by
  cases lead with
  | some lead =>
    cases h : isTrail unit with
    | true => exact .inr ⟨[joined lead unit], by simp [behindUnit, content, h]⟩
    | false => exact .inl (by simp [behindUnit, content, h])
  | none =>
    cases hlead : isLead unit with
    | true => exact .inr ⟨[], by simp [behindUnit, content, hlead]⟩
    | false =>
      cases h : isTrail unit with
      | true => exact .inl (by simp [behindUnit, content, hlead, h])
      | false => exact .inr ⟨[Char.ofNat unit], by simp [behindUnit, content, hlead, h]⟩

/-- What a character does to a string that goes on. -/
theorem step_next {c : Char} {rest : List Char} {st st' : TextState} (h : st.step c rest = .next st') :
    (∃ s, st = .plain s ∧ c ≠ '\\' ∧ st' = .plain (s.map (c :: ·))) ∨
    (∃ s, st = .plain s ∧ c = '\\' ∧ st' = .escape s none) ∨
    ((∀ s, st ≠ .plain s) ∧ (st'.content = none ∨ c ≠ '<' ∧ ∃ x, st'.content = st.content.map (x ++ ·))) := by
  cases st with
  | plain s =>
    simp only [step, plainStep] at h
    split at h
    · cases h
    · split at h
      · obtain rfl := TextStep.next.inj h
        exact .inr (.inl ⟨s, rfl, ‹_›, rfl⟩)
      · split at h
        · cases h
        · obtain rfl := TextStep.next.inj h
          exact .inl ⟨s, rfl, ‹_›, rfl⟩
  | escape s lead =>
    refine .inr (.inr ⟨nofun, ?_⟩)
    simp only [step, escapeStep] at h
    split at h
    · rename_i hc
      split at h
      · cases h
      · obtain rfl := TextStep.next.inj h
        -- The `u` of a unit: nothing comes to the content before its last digit.
        exact .inr ⟨by simp [hc], [], by simp [content]⟩
    · split at h
      · rename_i y hy
        obtain rfl := TextStep.next.inj h
        have hc : c ≠ '<' := by
          rintro rfl
          cases hy
        -- Any other character leaves half of a pair behind, so there is no content.
        cases lead with
        | some lead => exact .inl rfl
        | none => exact .inr ⟨hc, [y], rfl⟩
      · cases h
  | digits s lead left unit =>
    refine .inr (.inr ⟨nofun, ?_⟩)
    simp only [step] at h
    split at h
    · cases h
    · rename_i d hd
      obtain rfl := TextStep.next.inj h
      have hc : c ≠ '<' := by
        rintro rfl
        cases hd
      split
      · exact (content_behindUnit s lead _).imp_right fun h => ⟨hc, h⟩
      · exact .inr ⟨hc, [], by simp [content]⟩
  | paired s lead =>
    refine .inr (.inr ⟨nofun, ?_⟩)
    simp only [step] at h
    split at h
    · rename_i hc
      obtain rfl := TextStep.next.inj h
      exact .inr ⟨by simp [hc], [], by simp [content]⟩
    · simp only [plainStep] at h
      split_ifs at h
      all_goals
        obtain rfl := TextStep.next.inj h
        exact .inl rfl

theorem step_closed {c : Char} {rest : List Char} {st : TextState} {s : Content} (h : st.step c rest = .closed s) :
    c = '"' ∧ (st = .plain s ∨ s = none) := by
  have hplain {t : Content} (h : plainStep t c = .closed s) : c = '"' ∧ t = s := by
    unfold plainStep at h
    split at h
    · exact ⟨‹_›, TextStep.closed.inj h⟩
    · split_ifs at h
  cases st with
  | plain t =>
    obtain ⟨hc, rfl⟩ := hplain h
    exact ⟨hc, .inl rfl⟩
  | escape t lead =>
    simp only [step, escapeStep] at h
    split at h
    · split at h <;> cases h
    · split at h <;> cases h
  | digits t lead left unit =>
    simp only [step] at h
    split at h <;> cases h
  | paired t lead =>
    simp only [step] at h
    split_ifs at h
    obtain ⟨hc, rfl⟩ := hplain h
    exact ⟨hc, .inr rfl⟩

end TextState

theorem exists_readText {st : TextState} {text : List Char} (h : (readText st text).1.Legible) :
    ∃ s, (readText st text).1 = .text (some s) := by
  induction text generalizing st with
  | nil => exact h.elim
  | cons c r ih =>
    rw [readText] at h ⊢
    split at h
    case h_1 hstep => simpa only [hstep] using ih h
    case h_2 s hstep =>
      cases s with
      | none => cases h
      | some s => exact ⟨_, rfl⟩
    case h_3 => exact h.elim

/-- A string with a content runs to a quote, and its content is that of the characters before it. -/
theorem readText_eq {st : TextState} {text rest : List Char} {s : String} (h : readText st text = (.text (some s), rest)) :
    ∃ done esc raw x content, st.content = some done ∧ text = esc ++ (raw ++ '"' :: rest) ∧
      s.toList = done.reverse ++ (x ++ content) ∧ '<' ∉ esc ∧ Unescapes raw content ∧
      ∀ t, st = .plain t → esc = [] ∧ x = [] := by
  induction text generalizing st with
  | nil => simp [readText, brokenText] at h
  | cons c r ih =>
    rw [readText] at h
    split at h
    case h_1 st' hstep =>
      obtain ⟨done, esc, raw, x, content, hdone, rfl, hs, hesc, hun, hplain⟩ := ih h
      rcases TextState.step_next hstep with ⟨t, rfl, hc, rfl⟩ | ⟨t, rfl, rfl, rfl⟩ | ⟨hnot, hnone | ⟨hc, y, hy⟩⟩
      · obtain ⟨rfl, rfl⟩ := hplain _ rfl
        obtain ⟨d, rfl, rfl⟩ := Option.map_eq_some_iff.mp hdone
        exact ⟨d, [], c :: raw, [], c :: content, rfl, rfl, by simp [hs], List.not_mem_nil, .kept hc hun, fun _ _ => ⟨rfl, rfl⟩⟩
      · exact ⟨done, [], '\\' :: (esc ++ raw), [], x ++ content, hdone, by simp, by simp [hs], List.not_mem_nil,
          .escape hesc hun, fun _ _ => ⟨rfl, rfl⟩⟩
      · exact absurd (hnone.symm.trans hdone) (by simp)
      · obtain ⟨d, hd, rfl⟩ := Option.map_eq_some_iff.mp (hy.symm.trans hdone)
        exact ⟨d, c :: esc, raw, y.reverse ++ x, content, hd, rfl, by simp [hs], by simp [hesc, hc.symm], hun,
          fun t ht => absurd ht (hnot t)⟩
    case h_2 t hstep =>
      obtain ⟨htext, rfl⟩ := Prod.mk.inj h
      obtain ⟨rfl, rfl | rfl⟩ := TextState.step_closed hstep
      · obtain ⟨d, rfl, rfl⟩ := Option.map_eq_some_iff.mp (Lexeme.text.inj htext)
        exact ⟨d, [], [], [], [], rfl, rfl, by simp, List.not_mem_nil, .nil, fun _ _ => ⟨rfl, rfl⟩⟩
      · simp at htext
    case h_3 t f hstep =>
      exact absurd (Prod.mk.inj h).1 (by simp [brokenText])

/-! ### Words and numbers -/

/-- The first text runs up to the second without the character that marks start with. -/
def Skips (text rest : List Char) : Prop := ∃ skipped, text = skipped ++ rest ∧ '<' ∉ skipped

variable {text rest : List Char} {c : Char}

theorem Skips.refl (text : List Char) : Skips text text := ⟨[], rfl, List.not_mem_nil⟩

theorem Skips.cons (hc : c ≠ '<') (h : Skips text rest) : Skips (c :: text) rest := by
  obtain ⟨skipped, rfl, hskipped⟩ := h
  exact ⟨c :: skipped, rfl, by simp [hc.symm, hskipped]⟩

theorem Skips.trans {middle : List Char} (h : Skips text middle) (h' : Skips middle rest) : Skips text rest := by
  obtain ⟨a, rfl, ha⟩ := h
  obtain ⟨b, rfl, hb⟩ := h'
  exact ⟨a ++ b, (List.append_assoc a b rest).symm, by simp [ha, hb]⟩

theorem Skips.length_le (h : Skips text rest) : rest.length ≤ text.length := by
  obtain ⟨skipped, rfl, -⟩ := h
  simp

theorem ne_of_isDigit (h : Numeral.isDigit c = true) : c ≠ '<' := by
  rintro rfl
  exact absurd h (by decide)

theorem skips_spanDigits (text : List Char) : Skips text (Numeral.spanDigits text).2 := by
  induction text with
  | nil => exact .refl []
  | cons c r ih =>
    rw [Numeral.spanDigits]
    split
    · exact ih.cons (ne_of_isDigit ‹_›)
    · exact .refl _

section
variable {negative : Bool} {whole fraction : List Nat} {n : Numeral}

theorem skips_readExponent (h : Numeral.readExponent negative whole fraction text = .ok (n, rest)) : Skips text rest := by
  have hdigits {down : Bool} {r : List Char}
      (h : Numeral.readExponent.digits negative whole fraction down r = .ok (n, rest)) : Skips r rest := by
    have hspan := skips_spanDigits r
    unfold Numeral.readExponent.digits at h
    split at h <;> cases h
    rename_i heq
    rwa [heq] at hspan
  have hmark {r : List Char} (h : Numeral.readExponent.afterMark negative whole fraction r = .ok (n, rest)) :
      Skips r rest := by
    unfold Numeral.readExponent.afterMark at h
    split at h
    · exact (hdigits h).cons (by decide)
    · exact (hdigits h).cons (by decide)
    · exact hdigits h
  unfold Numeral.readExponent at h
  split at h
  · exact (hmark h).cons (by decide)
  · exact (hmark h).cons (by decide)
  · cases h
    exact .refl _

theorem skips_readFraction (h : Numeral.readFraction negative whole text = .ok (n, rest)) : Skips text rest := by
  unfold Numeral.readFraction at h
  split at h
  · rename_i r
    have hspan := skips_spanDigits r
    split at h
    · cases h
    · rename_i heq
      rw [heq] at hspan
      exact (hspan.trans (skips_readExponent h)).cons (by decide)
  · exact skips_readExponent h

/-- A number has a digit after its sign. -/
theorem skips_readWhole (h : Numeral.readWhole negative (c :: text) = .ok (n, rest)) : c ≠ '<' ∧ Skips text rest := by
  have hspan := skips_spanDigits text
  rw [Numeral.readWhole, Numeral.spanDigits] at h
  split at h
  · cases h
  · cases h
  · rename_i ds r hds hno heq
    split at heq
    · obtain ⟨-, rfl⟩ := Prod.mk.inj heq
      exact ⟨ne_of_isDigit ‹_›, hspan.trans (skips_readFraction h)⟩
    · exact absurd (Prod.mk.inj heq).1.symm hds

theorem skips_read (h : Numeral.read (c :: text) = .ok (n, rest)) : Skips text rest := by
  unfold Numeral.read at h
  split at h
  · rename_i heq
    obtain ⟨-, rfl⟩ := List.cons.inj heq
    cases text with
    | nil => cases h
    | cons d r =>
      obtain ⟨hd, hrest⟩ := skips_readWhole h
      exact hrest.cons hd
  · exact (skips_readWhole h).2

end

theorem skips_readWord {word : Lexeme} {letters : List Char} (hletters : '<' ∉ letters)
    (h : (readWord word letters text).1.Legible) : Skips text (readWord word letters text).2 := by
  induction letters generalizing text with
  | nil => exact .refl text
  | cons w ws ih =>
    rw [List.mem_cons, not_or] at hletters
    cases text with
    | nil => exact h.elim
    | cons c r =>
      rw [readWord] at h ⊢
      split at h
      · rename_i hc
        rw [if_pos hc]
        exact (ih hletters.2 h).cons (hc ▸ Ne.symm hletters.1)
      · exact h.elim

/-! ### Whole texts -/

/-- The content of a string up to its closing quote; other lexemes have none. -/
def quoted : Lexeme → List Char
  | .text (some s) => s.toList ++ ['"']
  | _ => []

theorem quoted_readWord {word : Lexeme} (hword : word.quoted = []) (letters text : List Char) :
    (readWord word letters text).1.quoted = [] := by
  fun_induction readWord word letters text with
  | case1 => exact hword
  | case2 => rfl
  | case3 w ws r ih => exact ih
  | case4 => rfl

theorem readNumber_cases (h : (readNumber (c :: text)).1.Legible) :
    Skips text (readNumber (c :: text)).2 ∧ (readNumber (c :: text)).1.quoted = [] := by
  unfold readNumber at h ⊢
  split at h
  · exact ⟨skips_read ‹_›, rfl⟩
  · exact h.elim

/-- A legible lexeme is a string, or nothing that a mark could start in. -/
theorem readOne_cases (h : (readOne c text).1.Legible) :
    (c ≠ '<' ∧ Skips text (readOne c text).2 ∧ (readOne c text).1.quoted = []) ∨
    ∃ s, c = '"' ∧ readText (.plain (some [])) text = (.text (some s), (readOne c text).2) ∧
      (readOne c text).1 = .text (some s) := by
  unfold readOne at h ⊢
  split at h
  case h_7 =>
    obtain ⟨s, hs⟩ := exists_readText h
    exact .inr ⟨s, rfl, Prod.ext hs rfl, hs⟩
  case h_8 => exact .inl ⟨by decide, skips_readWord (by decide) h, quoted_readWord rfl _ _⟩
  case h_9 => exact .inl ⟨by decide, skips_readWord (by decide) h, quoted_readWord rfl _ _⟩
  case h_10 => exact .inl ⟨by decide, skips_readWord (by decide) h, quoted_readWord rfl _ _⟩
  case h_11 =>
    split at h
    · rename_i hc
      rw [if_pos hc]
      obtain ⟨hskips, hquoted⟩ := readNumber_cases h
      refine .inl ⟨?_, hskips, hquoted⟩
      rintro rfl
      exact absurd hc (by decide)
    · exact h.elim
  all_goals exact .inl ⟨by decide, .refl text, rfl⟩

/-- Marks in the text of legible lexemes are in its strings, as they follow each other in the text. -/
theorem inOrder_quoted {marks : List (List Char)} (hmarks : ∀ m ∈ marks, IsMark m) {fuel : Nat}
    (hfuel : text.length ≤ fuel) (h : ∀ x ∈ readAll fuel text, x.Legible) (htext : InOrder marks text) :
    InOrder marks ((readAll fuel text).flatMap quoted) := by
  induction fuel generalizing text marks with
  | zero => rwa [List.eq_nil_of_length_eq_zero (Nat.le_zero.mp hfuel)] at htext
  | succ fuel ih =>
    cases text with
    | nil => exact htext
    | cons c r =>
      have hlength := Nat.le_of_succ_le_succ hfuel
      rw [readAll] at h ⊢
      split at h
      · rename_i hblank
        rw [if_pos hblank]
        have hc : '<' ∉ [c] := by
          rw [List.mem_singleton]
          rintro rfl
          exact absurd hblank (by decide)
        exact ih hmarks hlength h (htext.of_append hmarks hc)
      · rename_i hblank
        rw [if_neg hblank, List.flatMap_cons]
        obtain ⟨hlegible, hrest⟩ := List.forall_mem_cons.mp h
        rcases readOne_cases hlegible with ⟨hc, hskips, hquoted⟩ | ⟨s, rfl, hread, hone⟩
        · rw [hquoted, List.nil_append]
          refine ih hmarks (hskips.length_le.trans hlength) hrest ?_
          obtain ⟨skipped, hr, hskipped⟩ := hskips
          rw [hr] at htext
          exact InOrder.of_append (a := c :: skipped) hmarks (by simp [hc.symm, hskipped]) htext
        · obtain ⟨done, esc, raw, x, content, hdone, hr, hs, -, hun, hplain⟩ := readText_eq hread
          obtain ⟨rfl, rfl⟩ := hplain _ rfl
          obtain rfl := Option.some.inj hdone
          -- The quote behind the string parts the marks in it from the others.
          have hbehind : InOrder marks (raw ++ '"' :: (readOne '"' r).2) := by
            rw [hr] at htext
            exact htext.of_append (a := ['"']) hmarks (by decide)
          have hquote (m : List Char) (hm : m ∈ marks) : m ≠ [] ∧ '"' ∉ m := by
            obtain ⟨n, rfl, -⟩ := (hmarks m hm).starts
            exact ⟨List.cons_ne_nil '<' n, (hmarks _ hm).plain '"' (by decide)⟩
          obtain ⟨inside, others, rfl, hinside, hothers⟩ := hbehind.split hquote
          obtain ⟨content', rfl, hcontent⟩ :=
            hun.inOrder (by simp) (fun m hm => hmarks m (List.mem_append_left others hm)) (List.nil_append _).symm hinside
          have hle : (readOne '"' r).2.length ≤ fuel := by
            have := congrArg List.length hr
            simp only [List.length_append, List.length_cons] at this
            omega
          have hothers := ih (fun m hm => hmarks m (List.mem_append_right inside hm)) hle hrest hothers
          rw [hone, quoted, hs]
          rw [List.append_assoc]
          exact hcontent.append (hothers.append_left ['"'])

theorem inOrder_ofText {marks : List (List Char)} (hmarks : ∀ m ∈ marks, IsMark m) (h : ∀ x ∈ ofText text, x.Legible)
    (htext : InOrder marks text) : InOrder marks ((ofText text).flatMap quoted) :=
  inOrder_quoted hmarks le_rfl h htext

end Lexeme

namespace Batch

/-! ### Tags -/

theorem isMark_tags : ∀ m ∈ [openTag, closeTag], IsMark m := by
  rw [List.forall_mem_cons, List.forall_mem_singleton]
  exact ⟨isMark_openTag, isMark_closeTag⟩

/-- The tags of a text are in it, too, without the white space around it. -/
theorem Tagged.trim {text : String} (h : Tagged text.toList) : Tagged (Text.trim text).toList := by
  have hvisible : (openTag ++ closeTag).all (fun d => !Text.isBlank d) = true := by decide +kernel
  have hblank (c : Char) (hc : Text.isBlank c = true) : c ≠ '<' ∧ ∀ m ∈ [openTag, closeTag], c ∉ m := by
    have hnot : c ∉ openTag ++ closeTag := fun hmem => by
      have := List.all_eq_true.mp hvisible c hmem
      rw [hc] at this
      cases this
    rw [List.mem_append, not_or] at hnot
    refine ⟨?_, List.forall_mem_cons.mpr ⟨hnot.1, List.forall_mem_singleton.mpr hnot.2⟩⟩
    rintro rfl
    exact hnot.1 (by decide)
  have hblanks (l : List Char) : ∀ c ∈ l.takeWhile Text.isBlank, c ≠ '<' ∧ ∀ m ∈ [openTag, closeTag], c ∉ m :=
    fun c hc => hblank c (List.mem_takeWhile_imp hc)
  rw [Text.trim, String.toList_ofList, Text.trimChars, Text.trimEndChars]
  have hfront : Tagged (text.toList.dropWhile Text.isBlank) := by
    refine InOrder.of_append isMark_tags (fun hmem => (hblanks text.toList '<' hmem).1 rfl) ?_
    rwa [List.takeWhile_append_dropWhile]
  generalize text.toList.dropWhile Text.isBlank = l at hfront
  refine InOrder.of_append_right (b := (l.reverse.takeWhile Text.isBlank).reverse) isMark_tags
    (fun c hc => hblanks l.reverse c (List.mem_reverse.mp hc)) ?_
  rwa [← List.reverse_append, List.takeWhile_append_dropWhile, List.reverse_reverse]

/-- The commands that a text is JSON of: an array of them, or an object that has the array as its commands. -/
def IsJsonOf (text : String) (l : List Command) : Prop :=
  ∃ j items, Json.ofText (Text.trim text) = .ok j ∧ (j = .array items ∨ j.member? "commands" = some (.array items)) ∧
    items.mapM Command.ofJson = .ok l

theorem readJson_eq_ok {text : String} {l : List Command} (h : IsJsonOf text l) : readJson text = .ok l := by
  obtain ⟨j, items, hread, hitems, hl⟩ := h
  rw [readJson, hread]
  rcases hitems with rfl | hmember
  · exact congrArg (Except.mapError BatchFault.notCommands) hl
  · cases j with
    | object members =>
      simp only [Except.mapError, bind, Except.bind, hmember]
      exact congrArg (Except.mapError BatchFault.notCommands) hl
    | _ => cases hmember

/-- A JSON batch is read as its commands, repeats aside, if it has no opening tag with a closing tag behind it; else what
    stands between tags is read in its place. The tags are then quoted by its strings. -/
theorem ofText_json {text : String} {l : List Command} (h : IsJsonOf text l) :
    (¬ Tagged text.toList → ofText text = .ok (Command.distinct l)) ∧
    (Tagged text.toList → blocks text.toList ≠ [] ∧
      ofText text = (readBlocks 1 (blocks text.toList)).map Command.distinct ∧
      Tagged ((Lexeme.ofText (Text.trim text).toList).flatMap Lexeme.quoted)) := by
  refine ⟨fun htagged => ?_, fun htagged => ?_⟩
  · rw [ofText_eq, commandsOf, blocks_eq_nil_iff.mpr htagged]
    dsimp only
    rw [readJson_eq_ok h]
    rfl
  · have hblocks : blocks text.toList ≠ [] := fun hnil => blocks_eq_nil_iff.mp hnil htagged
    refine ⟨hblocks, ?_, ?_⟩
    · rw [ofText_eq, commandsOf]
      split
      · exact absurd ‹_› hblocks
      · rfl
    · obtain ⟨j, -, hread, -, -⟩ := h
      have hlegible := Json.legible_of_ofText hread
      exact Lexeme.inOrder_ofText isMark_tags hlegible htagged.trim

/-- A batch whose message speaks of the tags. -/
def tagTalk : String :=
  "\x7b\"message\":\"I put the edits between <commands> and </commands>.\",\"commands\":[\x7b\"command_type\":\"RemoveNode\",\"node_id\":\"n1\"\x7d]\x7d"

/-- The value of `tagTalk`. -/
def tagTalkJson : Json := .object
  [("message", .string "I put the edits between <commands> and </commands>."),
    ("commands", .array [.object [("command_type", .string "RemoveNode"), ("node_id", .string "n1")]])]

/-- The message is taken for a block, and the batch is refused. -/
theorem ofText_tagTalk : IsJsonOf tagTalk [⟨.removeNode "n1", none⟩] ∧ Tagged tagTalk.toList ∧
    ofText tagTalk = .error ⟨some 1, .notJson .malformed⟩ := by
  have htext : Text.trim tagTalk = tagTalkJson.compress := by decide +kernel
  have hread : Json.ofText (Text.trim tagTalk) = .ok tagTalkJson.sorted := by
    rw [htext]
    exact Json.ofText_compress nofun (by decide)
  have hmember : tagTalkJson.sorted.member? "commands" =
      some (.array [.object [("command_type", .string "RemoveNode"), ("node_id", .string "n1")]]) := rfl
  have hjson : IsJsonOf tagTalk [⟨.removeNode "n1", none⟩] := ⟨_, _, hread, .inr hmember, rfl⟩
  have hblocks : blocks tagTalk.toList = [" and ".toList] := by decide +kernel
  have htagged : Tagged tagTalk.toList := by
    by_contra htagged
    rw [blocks_eq_nil_iff.mpr htagged] at hblocks
    cases hblocks
  refine ⟨hjson, htagged, ?_⟩
  rw [((ofText_json hjson).2 htagged).2.1, hblocks]
  rfl

end Batch

end Workboard
