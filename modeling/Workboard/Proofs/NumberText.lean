import Mathlib
import Workboard.Json.Lexeme
import Workboard.Json.Printer

/-! The text of a number, read again.

`Numeral.chars` writes a literal down, and `Numeral.read` finds the same literal in it
(`Numeral.read_chars`). The text of a JSON number is such a literal, `JsonNumber.numeral?`; a number that is
not finite has none, and its text is that of `null`. -/

namespace Workboard

namespace Numeral

/-! ### Digits -/

/-- The decimal digits of a number, most significant first. -/
def digits (n : Nat) : List Nat := (Nat.toDigits 10 n).map fun c => c.toNat - 48

/-- The characters of digits. -/
def digitChars (ds : List Nat) : List Char := ds.map Nat.digitChar

theorem digits_of_lt {n : Nat} (h : n < 10) : digits n = [n] := by
  rw [digits, Nat.toDigits_of_lt_base h, List.map_singleton, Nat.toNat_digitChar_sub_48_of_lt_ten h]

theorem digits_step {m d : Nat} (hm : 0 < m) (hd : d < 10) : digits (10 * m + d) = digits m ++ [d] := by
  rw [digits, ← Nat.toDigits_append_toDigits (by decide) hm hd, List.map_append, ← digits, ← digits, digits_of_lt hd]

/-- A statement about the digits of every number follows the digits. -/
theorem digits_induction {P : Nat → List Nat → Prop} (single : ∀ d < 10, P d [d])
    (step : ∀ m d, 0 < m → d < 10 → P m (digits m) → P (10 * m + d) (digits m ++ [d])) (n : Nat) : P n (digits n) := by
  induction n using Nat.base_induction 10 (by decide) with
  | single m hm =>
    rw [digits_of_lt hm]
    exact single m hm
  | digit m k hk hm ih =>
    rw [digits_step hm hk]
    exact step m k hm hk ih

theorem digits_ne_nil (n : Nat) : digits n ≠ [] :=
  digits_induction (P := fun _ ds => ds ≠ []) (fun _ _ => List.cons_ne_nil _ _)
    (fun _ _ _ _ _ => List.append_ne_nil_of_right_ne_nil _ (List.cons_ne_nil _ _)) n

theorem digits_lt (n : Nat) : ∀ d ∈ digits n, d < 10 :=
  digits_induction (P := fun _ ds => ∀ d ∈ ds, d < 10) (fun d hd => by simpa using hd)
    (fun _ d _ hd ih e he => (List.mem_append.mp he).elim (ih e) fun h => List.mem_singleton.mp h ▸ hd) n

/-- Only zero starts with a zero. -/
theorem head?_digits (n : Nat) (hn : 0 < n) : (digits n).head? ≠ some 0 :=
  digits_induction (P := fun n ds => 0 < n → ds.head? ≠ some 0) (fun d _ hd => by simpa using hd.ne')
    (fun m d hm _ ih _ => by
      rw [List.head?_append]
      have h := ih hm
      cases hs : (digits m).head? with
      | none => exact absurd (List.head?_eq_none_iff.mp hs) (digits_ne_nil m)
      | some e => simpa [hs] using h) n hn

theorem digitsValue_append (ds es : List Nat) :
    digitsValue (ds ++ es) = digitsValue ds * 10 ^ es.length + digitsValue es := by
  have hfold (es : List Nat) (n : Nat) :
      es.foldl (fun n d => 10 * n + d) n = n * 10 ^ es.length + digitsValue es := by
    induction es generalizing n with
    | nil => simp [digitsValue]
    | cons d r ih =>
      have hd : digitsValue (d :: r) = d * 10 ^ r.length + digitsValue r := by
        rw [digitsValue, List.foldl_cons, ih]
        simp
      rw [List.foldl_cons, ih, hd, List.length_cons, pow_succ]
      ring
  rw [digitsValue, List.foldl_append, hfold]
  rfl

theorem digitsValue_digits (n : Nat) : digitsValue (digits n) = n :=
  digits_induction (P := fun n ds => digitsValue ds = n) (fun d _ => by simp [digitsValue])
    (fun m d _ _ ih => by rw [digitsValue_append, ih]; simp [digitsValue, mul_comm]) n

theorem digitChars_digits (n : Nat) : digitChars (digits n) = Nat.toDigits 10 n := by
  induction n using Nat.base_induction 10 (by decide) with
  | single m hm => rw [digits_of_lt hm, Nat.toDigits_of_lt_base hm]; rfl
  | digit m k hk hm ih =>
    have happend := Nat.toDigits_append_toDigits (b := 10) (by decide) hm hk
    rw [digits_step hm hk, digitChars, List.map_append, ← digitChars, ih, ← happend, Nat.toDigits_of_lt_base hk]
    rfl

/-! ### Literals -/

/-- The characters of an exponent, sign included. -/
def exponentChars (e : Int) : List Char :=
  'e' :: (if e < 0 then '-' else '+') :: digitChars (digits e.natAbs)

/-- The characters of a literal. -/
def chars (n : Numeral) : List Char :=
  (if n.negative then ['-'] else []) ++ digitChars n.whole
    ++ (if n.fraction = [] then [] else '.' :: digitChars n.fraction)
    ++ n.exponent.elim [] exponentChars

/-- A literal that can be read: digits in both parts, and no zero in front. -/
structure WellFormed (n : Numeral) : Prop where
  whole_ne_nil : n.whole ≠ []
  whole_lt : ∀ d ∈ n.whole, d < 10
  fraction_lt : ∀ d ∈ n.fraction, d < 10
  leading : ∀ r, n.whole = 0 :: r → r = []

/-- Characters that do not go on with a number. -/
def Ends (rest : List Char) : Prop :=
  ∀ c, rest.head? = some c → isDigit c = false ∧ c ≠ '.' ∧ c ≠ 'e' ∧ c ≠ 'E'

theorem isDigit_digitChar {d : Nat} (h : d < 10) : isDigit (Nat.digitChar d) = true := by
  revert d
  decide

theorem spanDigits_digitChars {ds : List Nat} (hds : ∀ d ∈ ds, d < 10) {rest : List Char}
    (hrest : ∀ c, rest.head? = some c → isDigit c = false) : spanDigits (digitChars ds ++ rest) = (ds, rest) := by
  induction ds with
  | nil =>
    cases rest with
    | nil => rfl
    | cons c r => simp [digitChars, spanDigits, hrest c rfl]
  | cons d ds ih =>
    obtain ⟨hd, hds⟩ := List.forall_mem_cons.mp hds
    have htail := ih hds
    unfold digitChars at htail ⊢
    rw [List.map_cons, List.cons_append, spanDigits, if_pos (isDigit_digitChar hd), htail,
      Nat.toNat_digitChar_sub_48_of_lt_ten hd]

theorem readExponent_chars (negative : Bool) (whole fraction : List Nat) (e : Option Int) {rest : List Char}
    (hrest : Ends rest) :
    readExponent negative whole fraction (e.elim [] exponentChars ++ rest) =
      .ok (⟨negative, whole, fraction, e⟩, rest) := by
  have hdigits (down : Bool) (n : Nat) :
      readExponent.digits negative whole fraction down (digitChars (digits n) ++ rest) =
        .ok (⟨negative, whole, fraction, some (if down then -(n : Int) else n)⟩, rest) := by
    have hspan := spanDigits_digitChars (digits_lt n) fun c hc => (hrest c hc).1
    unfold readExponent.digits
    rw [hspan]
    have hne := digits_ne_nil n
    cases hd : digits n with
    | nil => exact absurd hd hne
    | cons d r => simp only [← hd, digitsValue_digits]
  cases e with
  | none =>
    show readExponent negative whole fraction rest = _
    unfold readExponent
    split
    · exact absurd rfl (hrest _ rfl).2.2.1
    · exact absurd rfl (hrest _ rfl).2.2.2
    · rfl
  | some e =>
    rcases lt_or_ge e 0 with he | he
    · have habs : -(e.natAbs : Int) = e := by omega
      simp only [Option.elim_some, exponentChars, if_pos he, List.cons_append, readExponent, readExponent.afterMark,
        hdigits, if_true, habs]
    · have habs : (e.natAbs : Int) = e := by omega
      simp only [Option.elim_some, exponentChars, if_neg (not_lt.mpr he), List.cons_append, readExponent,
        readExponent.afterMark, hdigits, Bool.false_eq_true, if_false, habs]

/-- What follows the whole part of a literal does not go on with a digit. -/
theorem head?_exponentChars {e : Option Int} {rest : List Char} (hrest : Ends rest) {c : Char}
    (hc : (e.elim [] exponentChars ++ rest).head? = some c) : isDigit c = false ∧ c ≠ '.' := by
  cases e with
  | none => exact ⟨(hrest c hc).1, (hrest c hc).2.1⟩
  | some e =>
    obtain rfl := Option.some.inj hc
    decide

theorem readFraction_chars (n : Numeral) (hn : n.WellFormed) {rest : List Char} (hrest : Ends rest) :
    readFraction n.negative n.whole
        ((if n.fraction = [] then [] else '.' :: digitChars n.fraction) ++ (n.exponent.elim [] exponentChars ++ rest)) =
      .ok (n, rest) := by
  have hexponent (fraction : List Nat) := readExponent_chars n.negative n.whole fraction n.exponent hrest
  by_cases hf : n.fraction = []
  · rw [if_pos hf, List.nil_append]
    unfold readFraction
    split
    · rename_i r heq
      have hdot : (n.exponent.elim [] exponentChars ++ rest).head? = some '.' := by rw [heq]; rfl
      exact absurd rfl (head?_exponentChars hrest hdot).2
    · rw [hexponent, ← hf]
  · have hfollow : ∀ c, (n.exponent.elim [] exponentChars ++ rest).head? = some c → isDigit c = false :=
      fun c hc => (head?_exponentChars hrest hc).1
    have hspan := spanDigits_digitChars hn.fraction_lt hfollow
    rw [if_neg hf]
    unfold readFraction
    rw [List.cons_append]
    simp only [hspan]
    cases hd : n.fraction with
    | nil => exact absurd hd hf
    | cons d r =>
      simp only [hexponent]
      rw [← hd]

/-- A literal is read as it was written. -/
theorem read_chars (n : Numeral) (hn : n.WellFormed) {rest : List Char} (hrest : Ends rest) :
    read (n.chars ++ rest) = .ok (n, rest) := by
  have hfollow : ∀ c, ((if n.fraction = [] then [] else '.' :: digitChars n.fraction) ++
      (n.exponent.elim [] exponentChars ++ rest)).head? = some c → isDigit c = false := by
    intro c hc
    split at hc
    · exact (head?_exponentChars hrest hc).1
    · obtain rfl := Option.some.inj hc
      decide
  have hspan := spanDigits_digitChars hn.whole_lt hfollow
  have hwhole : readWhole n.negative (digitChars n.whole ++
      ((if n.fraction = [] then [] else '.' :: digitChars n.fraction) ++ (n.exponent.elim [] exponentChars ++ rest))) =
      .ok (n, rest) := by
    unfold readWhole
    rw [hspan]
    have hread := readFraction_chars n hn hrest
    split
    · rename_i heq
      exact absurd (congrArg Prod.fst heq) hn.whole_ne_nil
    · rename_i heq
      have hlead := hn.leading _ (congrArg Prod.fst heq)
      cases hlead
    · rename_i heq
      obtain ⟨rfl, rfl⟩ := Prod.mk.inj heq
      exact hread
  unfold chars
  simp only [List.append_assoc]
  cases hneg : n.negative with
  | true =>
    rw [if_pos rfl, List.singleton_append, read, ← hneg, hwhole]
  | false =>
    rw [if_neg Bool.false_ne_true, List.nil_append]
    -- The first character is a digit, so no sign is read.
    obtain ⟨d, r, hd⟩ := List.exists_cons_of_ne_nil hn.whole_ne_nil
    have hdigit := isDigit_digitChar (hn.whole_lt d (hd ▸ List.mem_cons_self))
    unfold read
    split
    · rename_i heq
      rw [hd, digitChars, List.map_cons, List.cons_append] at heq
      rw [(List.cons.inj heq).1] at hdigit
      exact absurd hdigit (by decide)
    · rw [← hneg, hwhole]

/-! ### Numbers -/

/-- The literal of a decimal in JSON text. -/
def ofDecimal (negative : Bool) (d : Decimal) : Numeral :=
  let ds := digits d.digits
  let lead := d.exponent + ds.length - 1
  if d.digits = 0 then ⟨negative, [0], [0], none⟩
  else if -5 ≤ lead ∧ lead < 16 then
    if lead + 1 ≤ 0 then ⟨negative, [0], List.replicate (-(lead + 1)).toNat 0 ++ ds, none⟩
    else if (ds.length : Int) ≤ lead + 1 then
      ⟨negative, ds ++ List.replicate ((lead + 1).toNat - ds.length) 0, [0], none⟩
    else ⟨negative, ds.take (lead + 1).toNat, ds.drop (lead + 1).toNat, none⟩
  else ⟨negative, ds.take 1, ds.drop 1, some lead⟩

theorem wellFormed_ofDecimal (negative : Bool) (d : Decimal) : (ofDecimal negative d).WellFormed := by
  have hlt := digits_lt d.digits
  have hne := digits_ne_nil d.digits
  have hzeros (n : Nat) : ∀ e ∈ List.replicate n 0, e < 10 := fun e he => by
    rw [List.eq_of_mem_replicate he]
    decide
  unfold ofDecimal
  dsimp only
  split
  · exact ⟨by simp, by simp, by simp, by simp⟩
  rename_i hd
  have hhead := head?_digits d.digits (Nat.pos_of_ne_zero hd)
  -- The digits do not begin with a zero, so no part in front of the point does.
  have hfront {l r : List Nat} (m : List Nat) (hl : l ≠ []) (h : l = 0 :: r ∨ l ++ m = 0 :: r)
      (hlm : ∃ m', l ++ m' = digits d.digits) : False := by
    obtain ⟨m', hm'⟩ := hlm
    obtain ⟨e, t, rfl⟩ := List.exists_cons_of_ne_nil hl
    have he : e = 0 := h.elim (fun h => (List.cons.inj h).1) fun h => (List.cons.inj h).1
    rw [← hm', he] at hhead
    exact hhead rfl
  split
  · split
    · exact ⟨by simp, by simp, List.forall_mem_append.mpr ⟨hzeros _, hlt⟩, by simp⟩
    split
    · refine ⟨by simp [hne], List.forall_mem_append.mpr ⟨hlt, hzeros _⟩, by simp, fun r h => ?_⟩
      exact (hfront _ hne (.inr h) ⟨[], List.append_nil _⟩).elim
    · rename_i hpoint _
      have htake : (digits d.digits).take (d.exponent + (digits d.digits).length - 1 + 1).toNat ≠ [] := by
        rw [Ne, List.take_eq_nil_iff]
        rintro (h | h)
        · omega
        · exact hne h
      refine ⟨htake, fun e he => hlt e (List.mem_of_mem_take he), fun e he => hlt e (List.mem_of_mem_drop he),
        fun r h => ?_⟩
      exact (hfront [] htake (.inl h) ⟨_, List.take_append_drop _ _⟩).elim
  · refine ⟨by simp [hne], fun e he => hlt e (List.mem_of_mem_take he), fun e he => hlt e (List.mem_of_mem_drop he),
      fun r h => ?_⟩
    obtain ⟨e, t, he⟩ := List.exists_cons_of_ne_nil hne
    have htake : (e :: t).take 1 = 0 :: r := he ▸ h
    exact (List.cons.inj htake).2.symm

theorem chars_plain (whole : List Nat) {fraction : List Nat} (h : fraction ≠ []) :
    (⟨false, whole, fraction, none⟩ : Numeral).chars = digitChars whole ++ '.' :: digitChars fraction := by
  simp [chars, h]

theorem length_digits (n : Nat) : (digits n).length = (Nat.toDigits 10 n).length := List.length_map _

theorem toList_zeros (n : Nat) : (Layout.zeros n).toList = digitChars (List.replicate n 0) := by
  rw [Layout.zeros, String.toList_ofList, digitChars, List.map_replicate]
  rfl

theorem digitChars_append (l m : List Nat) : digitChars (l ++ m) = digitChars l ++ digitChars m := List.map_append

/-- The text of digits and an exponent in JSON is that of the literal without a sign. -/
theorem toList_unsigned (negative : Bool) (d : Decimal) :
    (Layout.json.unsigned d).toList = ({ ofDecimal negative d with negative := false } : Numeral).chars := by
  have hchars := digitChars_digits d.digits
  have hlength := length_digits d.digits
  have hne := digits_ne_nil d.digits
  unfold Layout.unsigned ofDecimal
  dsimp only
  rw [← hlength]
  have hstyle : Layout.json.positionalFrom = -5 ∧ Layout.json.positionalTo = 16 := ⟨rfl, rfl⟩
  rw [hstyle.1, hstyle.2]
  split
  · rename_i hd
    rw [hd]
    rfl
  split
  · unfold Layout.positional
    rw [← hlength]
    split
    -- The point stands behind all digits,
    · rw [chars_plain _ (by simp [hne])]
      simp only [String.toList_append, String.toList_ofList, toList_zeros, ← hchars, digitChars_append, List.append_assoc]
      rfl
    split
    -- before all of them,
    · have hpoint : Layout.json.keepPointZero = true := rfl
      rw [chars_plain _ (List.cons_ne_nil 0 []), hpoint]
      simp only [String.toList_append, String.toList_ofList, toList_zeros, ← hchars, digitChars_append]
      rfl
    -- or between two.
    · rename_i hshort
      have hdrop : (digits d.digits).drop (d.exponent + (digits d.digits).length - 1 + 1).toNat ≠ [] := by
        rw [Ne, List.drop_eq_nil_iff]
        omega
      rw [chars_plain _ hdrop]
      simp only [String.toList_append, String.toList_ofList, ← hchars, digitChars, List.map_take, List.map_drop,
        List.append_assoc]
      rfl
  -- Otherwise the point stands behind the first digit, and an exponent follows.
  · have hsigns (lead : Int) : (if lead < 0 then "-" else "+").toList = [if lead < 0 then '-' else '+'] := by
      split <;> rfl
    have hnat (n : Nat) : (toString n).toList = digitChars (digits n) := by
      rw [Nat.toString_eq_repr, Nat.toList_repr, digitChars_digits]
    unfold Layout.scientific chars exponentChars
    simp only [String.toList_append, String.toList_ofList, ← hchars, hsigns, hnat, digitChars]
    cases hdrop : (digits d.digits).drop 1 with
    | nil => simp [hdrop, ← List.map_drop, List.map_take]
    | cons e t => simp [hdrop, ← List.map_drop, List.map_take]

/-- The text of a decimal in JSON is that of its literal. -/
theorem toList_write (negative : Bool) (d : Decimal) :
    (Layout.json.write negative d).toList = (ofDecimal negative d).chars := by
  have hsign : (if negative then "-" else "").toList = if negative then ['-'] else [] := by
    cases negative <;> rfl
  have hnegative : (ofDecimal negative d).negative = negative := by
    unfold ofDecimal
    dsimp only
    split_ifs <;> rfl
  rw [Layout.write, String.toList_append, hsign, toList_unsigned negative]
  unfold chars
  rw [hnegative]
  simp

end Numeral

/-- The literal of a floating-point number, if it is finite. -/
def Reading.numeral? : Reading → Option Numeral
  | .finite negative b => some (.ofDecimal negative b.shortest)
  | _ => none

namespace JsonNumber

/-- The literal of a number, if it has one. -/
def numeral? : JsonNumber → Option Numeral
  | .whole n => some ⟨n < 0, Numeral.digits n.natAbs, [], none⟩
  | .real x => (Reading.ofFloat x).numeral?
  | .single x => (Reading.ofFloat32 x).numeral?

theorem toList_realText (r : Reading) : (realText r).toList = r.numeral?.elim "null".toList Numeral.chars := by
  cases r with
  | finite negative b => exact Numeral.toList_write negative b.shortest
  | infinite | undefined => rfl

/-- The text of a number is its literal, or else that of `null`. -/
theorem toList_text (n : JsonNumber) : n.text.toList = n.numeral?.elim "null".toList Numeral.chars := by
  cases n with
  | whole n =>
    have hnat (m : Nat) : m.repr.toList = Numeral.digitChars (Numeral.digits m) := by
      rw [Nat.toList_repr, Numeral.digitChars_digits]
    have hminus : "-".toList = ['-'] := rfl
    show (toString n).toList = Numeral.chars _
    rw [Int.toString_eq_repr, Int.repr_eq_if]
    rcases lt_or_ge n 0 with h | h
    · have habs : (-n).toNat = n.natAbs := by omega
      rw [if_neg (not_le.mpr h), String.toList_append, hminus, habs, hnat]
      simp [Numeral.chars, h]
    · have habs : n.toNat = n.natAbs := by omega
      rw [if_pos h, habs, hnat]
      simp [Numeral.chars, not_lt.mpr h]
  | real x => exact toList_realText _
  | single x => exact toList_realText _

theorem wellFormed_of_numeral? {n : JsonNumber} {l : Numeral} (h : n.numeral? = some l) : l.WellFormed := by
  have hreading {r : Reading} (h : r.numeral? = some l) : l.WellFormed := by
    cases r with
    | finite negative b =>
      obtain rfl := Option.some.inj h
      exact Numeral.wellFormed_ofDecimal _ _
    | infinite | undefined => cases h
  cases n with
  | whole n =>
    obtain rfl := Option.some.inj h
    refine ⟨Numeral.digits_ne_nil _, Numeral.digits_lt _, by simp, fun r hr => ?_⟩
    rcases Nat.eq_zero_or_pos n.natAbs with hz | hp
    · have hzero : Numeral.digits n.natAbs = [0] := by rw [hz]; rfl
      exact (List.cons.inj (hzero.symm.trans hr)).2.symm
    · exact absurd (congrArg List.head? hr) (Numeral.head?_digits n.natAbs hp)
  | real x => exact hreading h
  | single x => exact hreading h

end JsonNumber

end Workboard
