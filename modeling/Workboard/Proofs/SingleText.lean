import Workboard.Proofs.DecimalGap
import Workboard.Proofs.Doubles
import Workboard.Proofs.Records
import Workboard.Proofs.ShortestDecimal

/-! The text of a binary32 number, read again.

The reader's value of a literal is not the nearest to what the literal says, but its error is less than what a short
decimal keeps from the ends of an interval, so the nearest binary32 number is the same (`Binary.IsSingle.takes`). -/

namespace Workboard

open Float.Model Float.Model.UnpackedFloat

/-! ### The digits of a literal -/

namespace Numeral

theorem digitsValue_cons (d : ℕ) (r : List ℕ) : digitsValue (d :: r) = d * 10 ^ r.length + digitsValue r := by
  rw [show d :: r = [d] ++ r from rfl, digitsValue_append]
  simp [digitsValue]

theorem digitsValue_zeros (n : ℕ) : digitsValue (List.replicate n 0) = 0 := by
  induction n with
  | zero => rfl
  | succ n ih => rw [List.replicate_succ, digitsValue_cons, ih, Nat.zero_mul]

/-- One digit more, and the others behind it. -/
theorem gather_step (n d : ℕ) (r : List ℕ) :
    n * 10 ^ (d :: r).length + digitsValue (d :: r) = (10 * n + d) * 10 ^ r.length + digitsValue r := by
  rw [digitsValue_cons, List.length_cons, pow_succ]
  ring

theorem gather_le {n k m c : ℕ} (h : n * 10 ^ k + m ≤ c) : n ≤ c :=
  le_trans (le_trans (Nat.le_mul_of_pos_right _ (by positivity)) (Nat.le_add_right _ _)) h

theorem gatherWhole_eq (n : ℕ) (ds : List ℕ) (h : n * 10 ^ ds.length + digitsValue ds ≤ wordMax) :
    gatherWhole n ds = ⟨n * 10 ^ ds.length + digitsValue ds, 0⟩ := by
  induction ds generalizing n with
  | nil => simp [gatherWhole, digitsValue]
  | cons d r ih =>
    rw [gather_step] at h ⊢
    rw [gatherWhole, if_pos (gather_le h), ih _ h]

theorem gatherFraction_eq (n : ℕ) (e : ℤ) (ds : List ℕ) (h : n * 10 ^ ds.length + digitsValue ds ≤ wordMax) :
    gatherFraction ⟨n, e⟩ ds = ⟨n * 10 ^ ds.length + digitsValue ds, e - ds.length⟩ := by
  induction ds generalizing n e with
  | nil => simp [gatherFraction, digitsValue]
  | cons d r ih =>
    rw [gather_step] at h ⊢
    rw [gatherFraction, if_pos (gather_le h), ih _ _ h, List.length_cons]
    congr 1
    push_cast
    ring

/-- The value of a literal with a fraction or an exponent. All of its digits count if they fit into 64 bits. -/
theorem value_eq_real {negative : Bool} {whole fraction : List ℕ} {exponent : Option ℤ}
    (hreal : fraction ≠ [] ∨ exponent ≠ none) {n : ℕ} {e : ℤ} (hn : digitsValue (whole ++ fraction) = n)
    (hfits : n ≤ wordMax) (he : exponent.getD 0 - fraction.length = e) :
    (⟨negative, whole, fraction, exponent⟩ : Numeral).value =
      (scale 4 (UInt64.ofNat n).toFloat e).map fun x => .real (if negative then -x else x) := by
  have hgather : gatherFraction (gatherWhole 0 whole) fraction = ⟨n, -fraction.length⟩ := by
    rw [← hn, digitsValue_append] at hfits
    have hwhole : gatherWhole 0 whole = ⟨digitsValue whole, 0⟩ := by
      have hzero : 0 * 10 ^ whole.length + digitsValue whole = digitsValue whole := by rw [Nat.zero_mul, Nat.zero_add]
      rw [gatherWhole_eq 0 whole (hzero.trans_le (gather_le hfits)), hzero]
    rw [hwhole, gatherFraction_eq _ _ _ hfits, ← digitsValue_append, hn, zero_sub]
  have hnot : ¬ (fraction.isEmpty = true ∧ exponent.isNone = true) := by
    rw [List.isEmpty_iff, Option.isNone_iff_eq_none]
    exact fun h => hreal.elim (fun hf => hf h.1) fun he => he h.2
  unfold value
  rw [if_neg hnot]
  unfold toFloat?
  simp only [hgather]
  rw [show -(fraction.length : ℤ) + exponent.getD 0 = e by omega, Option.map_map]
  rfl

/-- The literal of a decimal is scaled from the digits of the decimal, but for zeros before a point. -/
theorem exists_value_eq (negative : Bool) {D : ℕ} {p : ℤ} (hD : 0 < D) (hDtop : D ≤ 2 * 10 ^ 9) :
    ∃ n e, (ofDecimal negative ⟨D, p⟩).value =
        ((scale 4 (UInt64.ofNat n).toFloat e).map fun x => .real (if negative then -x else x)) ∧
      (n : ℚ) * 10 ^ e = D * 10 ^ p ∧ 0 < n ∧ n < 10 ^ 17 ∧ (n = D ∧ e = p ∨ e = -1 ∧ 0 ≤ p) := by
  obtain ⟨k, hk⟩ : ∃ k, (digits D).length = k := ⟨_, rfl⟩
  have hkpos : 0 < k := by rw [← hk, length_digits]; exact Nat.length_toDigits_pos
  have hDlt : D < 10 ^ k := (Nat.length_toDigits_le_iff (by norm_num) hkpos).mp (by rw [← length_digits, hk])
  have hword : D ≤ wordMax := hDtop.trans (by decide)
  have hvalue := digitsValue_digits D
  have hne := digits_ne_nil D
  unfold ofDecimal
  simp only [hk, if_neg hD.ne']
  have hplain : (D : ℚ) * 10 ^ p = D * 10 ^ p ∧ 0 < D ∧ D < 10 ^ 17 ∧ (D = D ∧ p = p ∨ p = -1 ∧ 0 ≤ p) :=
    ⟨rfl, hD, hDtop.trans_lt (by norm_num), Or.inl ⟨rfl, rfl⟩⟩
  split
  · rename_i hstyle
    split
    · -- Zeros behind the point and before the digits.
      refine ⟨D, p, value_eq_real (Or.inl (by simp [hne])) ?_ hword ?_, hplain⟩
      · rw [List.singleton_append, digitsValue_cons, digitsValue_append, digitsValue_zeros, hvalue]
        simp
      · rw [List.length_append, List.length_replicate, hk]
        simp only [Option.getD_none]
        omega
    split
    · -- Zeros behind the digits, and the zero behind the point.
      rename_i hlead
      obtain ⟨j, hj⟩ : ∃ j : ℕ, p = j := Int.eq_ofNat_of_zero_le (by omega)
      have hzeros : (p + k - 1 + 1).toNat - k = j := by omega
      have htop : D * 10 ^ j * 10 < 10 ^ 17 := by
        calc D * 10 ^ j * 10 < 10 ^ k * 10 ^ j * 10 := by gcongr
          _ = 10 ^ (k + j + 1) := by ring
          _ ≤ 10 ^ 17 := Nat.pow_le_pow_right (by norm_num) (by omega)
      refine ⟨D * 10 ^ j * 10, -1, value_eq_real (Or.inl (List.cons_ne_nil 0 [])) ?_ (htop.le.trans (by decide)) rfl, ?_,
        by positivity, htop, Or.inr ⟨rfl, by omega⟩⟩
      · rw [hzeros, digitsValue_append, digitsValue_append, digitsValue_zeros, hvalue, List.length_replicate]
        simp [digitsValue]
      · rw [hj, zpow_natCast, zpow_neg_one]
        push_cast
        field_simp
    · -- The point is among the digits.
      refine ⟨D, p, value_eq_real (Or.inl ?_) ?_ hword ?_, hplain⟩
      · rw [Ne, List.drop_eq_nil_iff, hk]
        omega
      · rw [List.take_append_drop, hvalue]
      · rw [List.length_drop, hk]
        simp only [Option.getD_none]
        omega
  · refine ⟨D, p, value_eq_real (Or.inr (Option.some_ne_none _)) ?_ hword ?_, hplain⟩
    · rw [List.take_append_drop, hvalue]
    · rw [List.length_drop, hk]
      simp only [Option.getD_some]
      omega

end Numeral

/-! ### Errors and intervals -/

open Neighbours (spare)

/-- What is known of the value `w` that the literal of a short decimal is read as. -/
structure ReadAs (D : ℕ) (p : ℤ) (w : ℚ) : Prop where
  near : |w - D * 10 ^ p| ≤ 301 / 100 / 2 ^ 53 * (D * 10 ^ p)
  exact : ∀ N : ℕ, ∀ q : ℤ, N ≤ mostBits → (D : ℚ) * 10 ^ p = N * 2 ^ q → p.natAbs ≤ 22 → w = D * 10 ^ p
  spared : ∀ N : ℕ, ∀ q : ℤ, 0 < N → spare p q = (D, N) → (D : ℚ) * 10 ^ p < N * 2 ^ q ∧ w < N * 2 ^ q

/-- The mantissa and the exponent of a finite number. -/
def parts : UnpackedFloat → ℕ × ℤ
  | .finite _ m e _ => (m, e)
  | _ => (0, 0)

theorem Holds.eq_parts {x : Float} {w : ℚ} (h : Holds x w) {m : ℕ} {e : ℤ} (hx : parts x.toModel.unpack = (m, e)) :
    w = m * 2 ^ e := by
  obtain ⟨m', e', h', hunpack, -, hw⟩ := h
  rw [hunpack] at hx
  obtain ⟨rfl, rfl⟩ := Prod.mk.inj hx
  exact hw.symm

theorem short_of_le {n : ℕ} {k : ℤ} (h : n ≤ mostBits) : Short (n * 2 ^ k) := ⟨n, k, h.trans_lt (by decide), rfl⟩

theorem Numeral.exists_readAs (negative : Bool) {D : ℕ} {p : ℤ} (hD : 0 < D) (hDtop : D ≤ 2 * 10 ^ 9) (hp : -53 ≤ p)
    (hptop : p < 39) :
    ∃ x w, (ofDecimal negative ⟨D, p⟩).value = some (.real (if negative then -x else x)) ∧ Holds x w ∧ ReadAs D p w := by
  obtain ⟨n, e, hvalue, hsame, hn, hntop, hform⟩ := exists_value_eq negative (p := p) hD hDtop
  have hrange : -55 ≤ e ∧ e ≤ 40 := by omega
  obtain ⟨x, w, hscale, hx, hnear, hexact⟩ := exists_scale hn hntop hrange.1 hrange.2
  rw [hsame] at hnear hexact
  refine ⟨x, w, by rw [hvalue, hscale, Option.map_some], hx, hnear, ?_, ?_⟩
  · intro N q hN hv hp22
    refine hexact ?_ (by omega) (hv ▸ short_of_le hN)
    -- The literal may have one zero more behind the point; then its digits are ten times the number.
    rcases hform with ⟨rfl, -⟩ | ⟨rfl, -⟩
    · exact ⟨n, 0, hDtop.trans_lt (by norm_num), by simp⟩
    · refine ⟨10 * N, q, ?_, ?_⟩
      · calc 10 * N ≤ 10 * mostBits := Nat.mul_le_mul_left 10 hN
          _ < 2 ^ 53 := by decide
      · have hten : (n : ℚ) = 10 * (D * 10 ^ p) := by
          rw [← hsame, zpow_neg_one]
          ring
        rw [hten, hv]
        push_cast
        ring
  · intro N q hN hspare
    unfold spare at hspare
    have hliteral (hp : p = -32) : n = D ∧ e = -32 := by omega
    split at hspare
    · rename_i h
      obtain ⟨rfl, rfl⟩ := Prod.mk.inj hspare
      obtain ⟨rfl, rfl⟩ := hliteral h.1
      have hparts : (scale 4 (UInt64.ofNat 7038531).toFloat (-32)).map (fun x => parts x.toModel.unpack) =
          some (6131425250115583, -136) := by decide +kernel
      rw [hscale, Option.map_some, Option.some.injEq] at hparts
      rw [hx.eq_parts hparts, h.1, h.2]
      norm_num
    split at hspare
    · rename_i h
      obtain ⟨rfl, rfl⟩ := Prod.mk.inj hspare
      obtain ⟨rfl, rfl⟩ := hliteral h.1
      have hparts : (scale 4 (UInt64.ofNat 14077062).toFloat (-32)).map (fun x => parts x.toModel.unpack) =
          some (6131425250115583, -135) := by decide +kernel
      rw [hscale, Option.map_some, Option.some.injEq] at hparts
      rw [hx.eq_parts hparts, h.1, h.2]
      norm_num
    · obtain ⟨rfl, rfl⟩ := Prod.mk.inj hspare
      exact absurd hN (lt_irrefl 0)

namespace ReadAs

variable {D N : ℕ} {p q : ℤ} {w : ℚ}

/-- A short decimal and what its literal is read as are on the same side of a number of few bits. -/
theorem same_side (h : ReadAs D p w) (hD : 0 < D) (hDle : D ≤ mostDigits) (hNge : Neighbours.leastBits q ≤ N)
    (hN : N ≤ mostBits) (hp : -53 ≤ p ∧ p < 39) (hq : -150 ≤ q ∧ q < 104) :
    (D : ℚ) * 10 ^ p < N * 2 ^ q ∧ w < N * 2 ^ q ∨ (D : ℚ) * 10 ^ p = N * 2 ^ q ∧ w = N * 2 ^ q ∨
      (N : ℚ) * 2 ^ q < D * 10 ^ p ∧ N * 2 ^ q < w := by
  have hNpos : 0 < N := lt_of_lt_of_le (by unfold Neighbours.leastBits; split <;> norm_num) hNge
  have hpos : (0 : ℚ) < N * 2 ^ q := mul_pos (by exact_mod_cast hNpos) (two_zpow_pos q)
  obtain ⟨hlow, hhigh⟩ := abs_le.mp h.near
  rcases eq_or_far hD hDle hNge hN hp hq with ⟨heq, hp22⟩ | hspare | hfar
  · exact Or.inr (Or.inl ⟨heq, (h.exact N q hN heq hp22).trans heq⟩)
  · exact Or.inl (h.spared N q hNpos hspare)
  · generalize (N : ℚ) * 2 ^ q = c at hpos hfar ⊢
    generalize (D : ℚ) * 10 ^ p = v at hlow hhigh hfar ⊢
    rcases le_or_gt v c with hvc | hvc
    · rw [abs_of_nonpos (by linarith)] at hfar
      exact Or.inl ⟨by linarith, by linarith⟩
    · rw [abs_of_pos (by linarith)] at hfar
      refine Or.inr (Or.inr ⟨hvc, ?_⟩)
      have hv : (1 + 31 / 10 / 2 ^ 53) * c ≤ v := by linarith
      calc c < (1 - 301 / 100 / 2 ^ 53) * ((1 + 31 / 10 / 2 ^ 53) * c) := by
            rw [← mul_assoc]
            exact lt_mul_of_one_lt_left hpos (by norm_num)
        _ ≤ (1 - 301 / 100 / 2 ^ 53) * v := mul_le_mul_of_nonneg_left hv (by norm_num)
        _ ≤ w := by linarith

end ReadAs

namespace Binary.IsSingle

variable {b : Binary}

/-- A number of few bits that may be an end of an interval. -/
def End (x : ℚ) : Prop :=
  ∃ N : ℕ, ∃ q : ℤ, x = N * 2 ^ q ∧ Neighbours.leastBits q ≤ N ∧ N ≤ mostBits ∧ -150 ≤ q ∧ q < 104

/-- Half a step beside a mantissa. -/
theorem end_of_half (hb : b.IsSingle) {N : ℕ} {x : ℚ} (hx : x * 2 = N) (hN : 0 < N) (hNge : -149 < b.exponent → 2 ^ 24 ≤ N)
    (hNle : N ≤ mostBits) : End (x * 2 ^ b.exponent) := by
  refine ⟨N, b.exponent - 1, ?_, ?_, hNle, ?_, ?_⟩
  · rw [← hx, zpow_sub_one₀ (by norm_num)]
    ring
  · unfold Neighbours.leastBits
    split
    · exact hN
    · exact hNge (by have := hb.low; omega)
  · have := hb.low
    omega
  · have := hb.high
    omega

theorem end_high (hb : b.IsSingle) : End ((b.mantissa + 1 / 2) * 2 ^ b.exponent) := by
  have hlt := hb.lt
  refine hb.end_of_half (N := 2 * b.mantissa + 1) (by push_cast; ring) (Nat.succ_pos _) (fun he => ?_)
    (by unfold mostBits; omega)
  have := hb.normal.resolve_left he.ne'
  omega

theorem end_low (hb : b.IsSingle) : End ((b.mantissa - if b.narrowBelow then 1 / 4 else 1 / 2) * 2 ^ b.exponent) := by
  have hlt := hb.lt
  have hpos := hb.pos
  by_cases hnarrow : b.narrowBelow = true
  · -- A quarter of a step below a power of two.
    obtain ⟨hm, he⟩ := hb.narrow.mp hnarrow
    have hhigh := hb.high
    rw [if_pos hnarrow, hm]
    refine ⟨2 ^ 25 - 1, b.exponent - 2, ?_, ?_, by decide, by omega, by omega⟩
    · rw [zpow_sub₀ (by norm_num)]
      norm_num
      ring
    · unfold Neighbours.leastBits
      split <;> norm_num
  · rw [if_neg hnarrow]
    refine hb.end_of_half (N := 2 * b.mantissa - 1) ?_ (by omega) (fun he => ?_) (by unfold mostBits; omega)
    · rw [Nat.cast_sub (by omega)]
      push_cast
      ring
    · have hge := hb.normal.resolve_left he.ne'
      have hne : b.mantissa ≠ 2 ^ 23 := fun h => hnarrow (hb.narrow.mpr ⟨h, he⟩)
      omega

/-- What the shortest decimal of a value is read as rounds to the value. -/
theorem takes (hb : b.IsSingle) {w : ℚ} (h : ReadAs b.shortest.digits b.shortest.exponent w) : b.Takes w := by
  obtain ⟨hD, -, hplow, hphigh, htakes, hclose | hopen⟩ := hb.shortest_spec
  · obtain ⟨N, q, hN, hNge, hNle, hq⟩ := hb.end_low
    obtain ⟨M, r, hM, hMge, hMle, hr⟩ := hb.end_high
    have hlow := h.same_side hD hclose hNge hNle ⟨hplow, hphigh⟩ hq
    have hhigh := h.same_side hD hclose hMge hMle ⟨hplow, hphigh⟩ hr
    rw [← hN] at hlow
    rw [← hM] at hhigh
    unfold Takes Admitted at htakes ⊢
    dsimp only at htakes ⊢
    split at htakes
    · rename_i heven
      rw [if_pos heven]
      constructor
      · rcases hlow with hlow | hlow | hlow
        · exact absurd htakes.1 (not_le.mpr hlow.1)
        · exact hlow.2.ge
        · exact hlow.2.le
      · rcases hhigh with hhigh | hhigh | hhigh
        · exact hhigh.2.le
        · exact hhigh.2.le
        · exact absurd htakes.2 (not_le.mpr hhigh.1)
    · rename_i hodd
      rw [if_neg hodd]
      constructor
      · rcases hlow with hlow | hlow | hlow
        · exact absurd htakes.1 (not_lt.mpr hlow.1.le)
        · exact absurd htakes.1 (not_lt.mpr hlow.1.le)
        · exact hlow.2
      · rcases hhigh with hhigh | hhigh | hhigh
        · exact hhigh.2
        · exact absurd htakes.2 (not_lt.mpr hhigh.1.ge)
        · exact absurd htakes.2 (not_lt.mpr hhigh.1.le)
  · exact hopen w h.near

end Binary.IsSingle

/-! ### Bit patterns -/

def isNegative : Sign → Bool
  | .negative => true
  | .positive => false

/-- A number taken apart by its model, as the writer takes it apart. -/
def Reading.ofUnpacked : UnpackedFloat → Reading
  | .notANumber => .undefined
  | .infinity s => .infinite (isNegative s)
  | .zero s => .finite (isNegative s) ⟨0, -149, false⟩
  | .finite s m e _ => .finite (isNegative s) ⟨m, e, m = 2 ^ 23 ∧ -149 < e⟩

/-- The fields of a bit pattern, and the number that it is unpacked to. -/
theorem unpack_cases (v : BitVec 32) :
    let fraction : ℕ := v.toNat % 2 ^ 23
    let field : ℕ := v.toNat / 2 ^ 23 % 2 ^ 8
    let s : Sign := if v.toNat / 2 ^ 31 % 2 = 1 then .negative else .positive
    if field = 255 then unpack .binary32 v = if fraction = 0 then .infinity s else .notANumber
    else if field = 0 ∧ fraction = 0 then unpack .binary32 v = .zero s
    else if field = 0 then ∃ h, unpack .binary32 v = .finite s fraction (-149) h
    else ∃ h, unpack .binary32 v = .finite s (2 ^ 23 + fraction) ((field : ℤ) - 150) h := by
  obtain ⟨m, hm⟩ : ∃ m : BitVec 23, @unpackMantissa .binary32 v = m := ⟨_, rfl⟩
  obtain ⟨e, he⟩ : ∃ e : BitVec 8, @unpackExponent .binary32 v = e := ⟨_, rfl⟩
  obtain ⟨s, hs⟩ : ∃ s, @unpackSign .binary32 v = s := ⟨_, rfl⟩
  have hmn : v.toNat % 2 ^ 23 = m.toNat := by
    rw [← hm, unpackMantissa_def, BitVec.extractLsb'_toNat]
    rfl
  have hen : v.toNat / 2 ^ 23 % 2 ^ 8 = e.toNat := by
    rw [← he, unpackExponent_def, BitVec.extractLsb'_toNat, Nat.shiftRight_eq_div_pow]
  have hsn : v.toNat / 2 ^ 31 % 2 = s.toNat := by
    rw [← hs, unpackSign_def, BitVec.extractLsb'_toNat, Nat.shiftRight_eq_div_pow]
    rfl
  have hsign : Sign.ofBitVec s = if s.toNat = 1 then .negative else .positive := by
    have hbit : s = 0#1 ∨ s = 1#1 := by
      clear hs hsn
      decide +revert
    rcases hbit with rfl | rfl <;> rfl
  have himplicit : (1#1 ++ m).toNat = 2 ^ 23 + m.toNat := by
    rw [BitVec.toNat_append, ← Nat.shiftLeft_add_eq_or_of_lt m.isLt]
    rfl
  have himplicit_pos : 0 < (1#1 ++ m).toNat := by rw [himplicit]; positivity
  -- The model branches on the same three fields, but compares them as bit vectors.
  have hunpack : unpack .binary32 v =
      if e = -1#8 then if m = 0#23 then .infinity (Sign.ofBitVec s) else .notANumber
      else if e = 0#8 then
        if h : m = 0#23 then .zero (Sign.ofBitVec s)
        else .finite (Sign.ofBitVec s) m.toNat ((e.toNat : ℤ) - (127 + 23 : ℕ) + 1)
          (by simpa [BitVec.toNat_pos, BitVec.pos_iff_ne_zero])
      else .finite (Sign.ofBitVec s) (1#1 ++ m).toNat ((e.toNat : ℤ) - (127 + 23 : ℕ)) himplicit_pos := by
    subst hm he hs
    rfl
  have hfull : e = -1#8 ↔ e.toNat = 255 := by rw [BitVec.toNat_eq]; rfl
  have hezero : e = 0#8 ↔ e.toNat = 0 := by rw [BitVec.toNat_eq]; rfl
  have hmzero : m = 0#23 ↔ m.toNat = 0 := by rw [BitVec.toNat_eq]; rfl
  dsimp only
  rw [hmn, hen, hsn, hunpack, hsign]
  by_cases h255 : e.toNat = 255
  · rw [if_pos h255, if_pos (hfull.mpr h255)]
    simp only [hmzero]
  rw [if_neg h255, if_neg (mt hfull.mp h255)]
  by_cases he0 : e.toNat = 0
  · rw [if_pos (hezero.mpr he0)]
    by_cases hm0 : m.toNat = 0
    · rw [if_pos ⟨he0, hm0⟩, dif_pos (hmzero.mpr hm0)]
    · rw [if_neg fun h => hm0 h.2, if_pos he0, dif_neg (mt hmzero.mp hm0), he0]
      exact ⟨Nat.pos_of_ne_zero hm0, rfl⟩
  · rw [if_neg fun h => he0 h.1, if_neg he0, if_neg (mt hezero.mp he0)]
    refine ⟨by positivity, ?_⟩
    simp only [himplicit]
    rfl

theorem ofFloat32_eq (x : Float32) : Reading.ofFloat32 x = .ofUnpacked x.toModel.unpack := by
  have hcases := unpack_cases x.toModel.toBits.toBitVec
  have hread : Reading.ofFloat32 x = .ofBits 8 23 x.toModel.toBits.toBitVec.toNat := rfl
  have hunpack : x.toModel.unpack = unpack .binary32 x.toModel.toBits.toBitVec := rfl
  rw [hread, hunpack]
  generalize x.toModel.toBits.toBitVec = v at hcases ⊢
  obtain ⟨f, hf⟩ : ∃ f, v.toNat % 2 ^ 23 = f := ⟨_, rfl⟩
  obtain ⟨k, hk⟩ : ∃ k, v.toNat / 2 ^ 23 % 2 ^ 8 = k := ⟨_, rfl⟩
  have hsign : isNegative (if v.toNat / 2 ^ 31 % 2 = 1 then .negative else .positive) =
      decide (v.toNat / 2 ^ 31 % 2 = 1) := by
    by_cases h : v.toNat / 2 ^ 31 % 2 = 1
    · rw [if_pos h, decide_eq_true h]
      rfl
    · rw [if_neg h, decide_eq_false h]
      rfl
  have hbits : Reading.ofBits 8 23 v.toNat =
      if k = 255 then if f = 0 then .infinite (v.toNat / 2 ^ 31 % 2 = 1) else .undefined
      else .finite (v.toNat / 2 ^ 31 % 2 = 1)
        (if k = 0 then ⟨f, -149, false⟩ else ⟨2 ^ 23 + f, (k : ℤ) - 127 - 23, f = 0 ∧ 1 < k⟩) := by
    rw [← hf, ← hk]
    rfl
  dsimp only at hcases
  rw [hf, hk] at hcases
  rw [hbits]
  by_cases h255 : k = 255
  · rw [if_pos h255] at hcases ⊢
    rw [hcases]
    split
    · exact congrArg Reading.infinite hsign.symm
    · rfl
  rw [if_neg h255] at hcases ⊢
  by_cases hk0 : k = 0
  · by_cases hf0 : f = 0
    · rw [if_pos ⟨hk0, hf0⟩] at hcases
      rw [hcases, if_pos hk0, hf0]
      exact congrArg (Reading.finite · _) hsign.symm
    · rw [if_neg fun h => hf0 h.2, if_pos hk0] at hcases
      obtain ⟨h, hcases⟩ := hcases
      rw [hcases, if_pos hk0]
      show _ = Reading.finite (isNegative _) ⟨f, -149, _⟩
      rw [hsign]
      simp
  · rw [if_neg fun h => hk0 h.1, if_neg hk0] at hcases
    obtain ⟨h, hcases⟩ := hcases
    rw [hcases, if_neg hk0]
    show _ = Reading.finite (isNegative _) ⟨2 ^ 23 + f, (k : ℤ) - 150, _⟩
    rw [hsign]
    congr 2
    · ring
    · simp only [decide_eq_decide]
      omega

/-- The mantissa and the exponent of a finite binary32 number that is not zero. -/
theorem isSingle_of_unpack {x : Float32} {s : Sign} {m : ℕ} {e : ℤ} {h : 0 < m}
    (hx : x.toModel.unpack = .finite s m e h) : (⟨m, e, m = 2 ^ 23 ∧ -149 < e⟩ : Binary).IsSingle := by
  have hcases := unpack_cases x.toModel.toBits.toBitVec
  have hunpack : x.toModel.unpack = unpack .binary32 x.toModel.toBits.toBitVec := rfl
  rw [hunpack] at hx
  generalize x.toModel.toBits.toBitVec = v at hcases hx
  have hfraction := Nat.mod_lt v.toNat (show 0 < 2 ^ 23 by norm_num)
  have hfield := Nat.mod_lt (v.toNat / 2 ^ 23) (show 0 < 2 ^ 8 by norm_num)
  dsimp only at hcases
  rw [hx] at hcases
  split at hcases
  · split at hcases <;> cases hcases
  split at hcases
  · cases hcases
  split at hcases
  · obtain ⟨h, hcases⟩ := hcases
    obtain ⟨-, rfl, rfl⟩ := UnpackedFloat.finite.inj hcases
    exact ⟨h, by dsimp only; omega, le_rfl, by norm_num, Or.inl rfl, by simp⟩
  · obtain ⟨h, hcases⟩ := hcases
    obtain ⟨-, rfl, rfl⟩ := UnpackedFloat.finite.inj hcases
    exact ⟨h, by dsimp only; omega, by dsimp only; omega, by dsimp only; omega, Or.inr (Nat.le_add_right _ _), by simp⟩

theorem Float32.eq_pack (x : Float32) : x = .ofModel (.pack x.toModel.unpack) := (Float32.ofBits_toBits x).symm

/-! ### Reading back -/

/-- The nearest binary32 number to a value that rounds to one. -/
theorem narrow_eq {x : Float32} {s : Sign} {m : ℕ} {e : ℤ} {h : 0 < m} (hx : x.toModel.unpack = .finite s m e h)
    {y : Float} {m' : ℕ} {e' : ℤ} {h' : 0 < m'} (hy : y.toModel.unpack = .finite s m' e' h')
    (htakes : (⟨m, e, m = 2 ^ 23 ∧ -149 < e⟩ : Binary).Takes (m' * 2 ^ e')) : narrow y = x := by
  have hsingle := isSingle_of_unpack hx
  have hcanonical : Canonical .binary32 m e := ⟨hsingle.low, hsingle.lt, hsingle.normal⟩
  have hround := (rounds_round (F := .binary32) h' s e').eq_finite h hcanonical hsingle.narrow htakes
  rw [Float32.eq_pack x, hx, ← hround]
  unfold narrow
  rw [hy]

/-- The text of a finite number is read as the number. -/
theorem exists_value {x : Float32} (h : x.isFinite = true) :
    ∃ l y, (JsonNumber.single x).numeral? = some l ∧ l.value = some (.real y) ∧ narrow y = x := by
  have hread := ofFloat32_eq x
  have hfinite : x.toModel.unpack.isFinite = true := h
  cases hx : x.toModel.unpack with
  | notANumber | infinity s =>
    rw [hx] at hfinite
    cases hfinite
  | zero s =>
    rw [hx] at hread
    have hnumeral : (JsonNumber.single x).numeral? = some (.ofDecimal (isNegative s) ⟨0, 0⟩) := by
      show (Reading.ofFloat32 x).numeral? = _
      rw [hread]
      rfl
    have hzero : x = .ofModel (.pack (.zero s)) := hx ▸ Float32.eq_pack x
    -- Zero has no digits to scale, so the reader is run on it.
    have hscale : Numeral.scale 4 (UInt64.ofNat 0).toFloat (-1) = some 0 := by decide +kernel
    have hvalue : (Numeral.ofDecimal (isNegative s) ⟨0, 0⟩).value = some (.real (if isNegative s then -0 else 0)) := by
      have hdigits : Numeral.digitsValue ([0] ++ [0]) = 0 := rfl
      have h : (Numeral.ofDecimal (isNegative s) ⟨0, 0⟩).value = _ :=
        Numeral.value_eq_real (Or.inl (List.cons_ne_nil 0 [])) hdigits (Nat.zero_le _) (e := -1) rfl
      rw [h, hscale, Option.map_some]
    refine ⟨_, _, hnumeral, hvalue, ?_⟩
    rw [hzero]
    cases s <;> decide +kernel
  | finite s m e hm =>
    rw [hx] at hread
    obtain ⟨b, hb⟩ : ∃ b : Binary, b = ⟨m, e, m = 2 ^ 23 ∧ -149 < e⟩ := ⟨_, rfl⟩
    have hsingle : b.IsSingle := hb ▸ isSingle_of_unpack hx
    -- The literal is read as a double near the decimal, which still is rounded to the single number.
    obtain ⟨hD, hDtop, hp, hptop, -⟩ := hsingle.shortest_spec
    obtain ⟨y, w, hvalue, hy, has⟩ := Numeral.exists_readAs (isNegative s) hD hDtop hp hptop
    obtain ⟨s', m', e', hm', hunpack, hsign, hw⟩ := hy.unpack_neg (isNegative s)
    have hs : s' = s := by cases s <;> cases s' <;> simp_all [isNegative]
    refine ⟨_, _, ?_, hvalue, narrow_eq hx (hs ▸ hunpack) ?_⟩
    · show (Reading.ofFloat32 x).numeral? = _
      rw [hread, hb]
      rfl
    · rw [hw, ← hb]
      exact hsingle.takes has

open Shape

theorem yields_single {x : Float32} (h : x.isFinite = true) : real.Yields Json.float32? (Json.single x).shown x := by
  obtain ⟨l, y, hnumeral, hvalue, hy⟩ := exists_value h
  have hshown : (Json.single x).shown = .number (some (.real y)) := by
    show (JsonNumber.single x).numeral?.elim Draft.null _ = _
    rw [hnumeral, Option.elim_some, hvalue]
  rw [hshown]
  exact ⟨_, rfl, congrArg some hy⟩

/-- The text of a number that is not finite is `null`. -/
theorem shown_single {x : Float32} (h : x.isFinite = false) : (Json.single x).shown = .null := by
  have hinfinite : x.toModel.unpack.isFinite = false := h
  have hnumeral : (JsonNumber.single x).numeral? = none := by
    show (Reading.ofFloat32 x).numeral? = none
    rw [ofFloat32_eq]
    cases hx : x.toModel.unpack with
    | notANumber | infinity s => rfl
    | zero s | finite s m e hm =>
      rw [hx] at hinfinite
      cases hinfinite
  show (JsonNumber.single x).numeral?.elim Draft.null _ = _
  rw [hnumeral, Option.elim_none]

end Workboard
