import Mathlib

/-! Rounding of floating-point numbers, in rational arithmetic.

A value is rounded on the grid of its binade (`OnGrid`), to the nearest whole number of steps, ties to the even
one (`Nearest`). `Rounds` says that of a value and the number it becomes. Rounding, products and quotients all
do this, so one lemma tells when a value becomes a given number (`Rounds.eq_finite`), and another how far it moves
(`Rounds.error`). -/

namespace Workboard

open Float.Model Float.Model.UnpackedFloat

/-! ### To the nearest whole number -/

/-- The nearest whole number, the even one of two. -/
def Nearest (n : ℕ) (x : ℚ) : Prop := |x - n| < 1 / 2 ∨ |x - n| = 1 / 2 ∧ n % 2 = 0

namespace Nearest

variable {m n : ℕ} {x : ℚ}

theorem abs_sub_le (h : Nearest n x) : |x - n| ≤ 1 / 2 := by
  rcases h with h | h
  · exact h.le
  · exact h.1.le

theorem even (h : Nearest n x) (hx : |x - n| = 1 / 2) : n % 2 = 0 := by
  rcases h with h | h
  · exact absurd hx h.ne
  · exact h.2

theorem le (hm : Nearest m x) (hn : Nearest n x) : m ≤ n := by
  by_contra hlt
  have hle : (n : ℚ) + 1 ≤ m := by exact_mod_cast not_le.mp hlt
  have hmx := abs_le.mp hm.abs_sub_le
  have hnx := abs_le.mp hn.abs_sub_le
  -- The value is in the middle between neighbours, and one of them is odd.
  have hmid : x = n + 1 / 2 := by linarith
  have hnext : (m : ℚ) = n + 1 := by linarith
  have hmeven := hm.even (by rw [hmid, hnext, abs_of_neg] <;> linarith)
  have hneven := hn.even (by rw [hmid, abs_of_pos] <;> linarith)
  have : m = n + 1 := by exact_mod_cast hnext
  omega

theorem unique (hm : Nearest m x) (hn : Nearest n x) : m = n := le_antisymm (hm.le hn) (hn.le hm)

theorem le_of_lt {b : ℕ} (h : Nearest n x) (hx : x < b) : n ≤ b := by
  have := abs_le.mp h.abs_sub_le
  have : (n : ℚ) < b + 1 := by linarith
  exact_mod_cast Nat.lt_succ_iff.mp (by exact_mod_cast this)

theorem ge_of_le {b : ℕ} (h : Nearest n x) (hx : b ≤ x) : b ≤ n := by
  have := abs_le.mp h.abs_sub_le
  have : (b : ℚ) < n + 1 := by linarith
  exact_mod_cast Nat.lt_succ_iff.mp (by exact_mod_cast this)

theorem self (n : ℕ) : Nearest n n := Or.inl (by norm_num)

end Nearest

/-! ### Mantissas with residual bits -/

/-- The value that a mantissa with its residual bits stands for. -/
def Stands : ExtendedMantissa → ℚ → Prop
  | ⟨m, false, false⟩, x => x = m
  | ⟨m, false, true⟩, x => (m : ℚ) < x ∧ x < m + 1 / 2
  | ⟨m, true, false⟩, x => x = m + 1 / 2
  | ⟨m, true, true⟩, x => (m : ℚ) + 1 / 2 < x ∧ x < m + 1

namespace Stands

variable {em : ExtendedMantissa} {x : ℚ}

theorem bounds (h : Stands em x) : (em.mantissa : ℚ) ≤ x ∧ x < em.mantissa + 1 := by
  obtain ⟨m, r, s⟩ := em
  cases r <;> cases s <;> simp only [Stands] at h ⊢ <;> constructor <;> linarith

theorem nearest (h : Stands em x) : Nearest em.roundedMantissa x := by
  obtain ⟨m, r, s⟩ := em
  cases r <;> cases s <;> simp only [Stands] at h <;>
    simp only [ExtendedMantissa.roundedMantissa, ExtendedMantissa.accuracy, Accuracy.roundToNearestEven]
  · rw [h]
    exact .self m
  · exact Or.inl (by rw [abs_lt]; constructor <;> linarith)
  · refine Or.inr ⟨?_, by omega⟩
    rcases Nat.mod_two_eq_zero_or_one m with hm | hm <;> rw [h, hm]
    · rw [abs_of_pos] <;> push_cast <;> linarith
    · rw [abs_of_neg] <;> push_cast <;> linarith
  · exact Or.inl (by rw [abs_lt]; push_cast; constructor <;> linarith)

theorem shiftRightOne (h : Stands em x) : Stands em.shiftRightOne (x / 2) := by
  obtain ⟨m, r, s⟩ := em
  have hm : ((m % 2 : ℕ) : ℚ) + 2 * ((m / 2 : ℕ) : ℚ) = m := by exact_mod_cast Nat.mod_add_div m 2
  show Stands ⟨m / 2, m % 2 != 0, r || s⟩ (x / 2)
  rcases Nat.mod_two_eq_zero_or_one m with hr | hr
  all_goals
    rw [hr] at hm ⊢
    push_cast at hm
    cases r <;> cases s <;> simp only [Stands] at h
  all_goals first
    | exact show x / 2 = _ by linarith
    | exact ⟨by linarith, by linarith⟩

theorem shiftRight (h : Stands em x) (k : ℕ) : Stands (em >>> k) (x / 2 ^ k) := by
  show Stands (k.repeat ExtendedMantissa.shiftRightOne em) _
  induction k with
  | zero => rwa [pow_zero, div_one]
  | succ k ih =>
    rw [pow_succ, ← div_div]
    exact ih.shiftRightOne

end Stands

/-! ### Grids -/

variable {F : Format} {s : Sign} {m : ℕ} {e t : ℤ} {x : ℚ}

/-- The grid of a positive value has steps of `2 ^ t`: the coarsest on which the value has all bits of a mantissa
    before the point, but none finer than the format has. -/
structure OnGrid (F : Format) (x : ℚ) (t : ℤ) : Prop where
  min_le : F.minExponent ≤ t
  lt : x < 2 ^ (t + F.mantissaBits)
  normal : t = F.minExponent ∨ 2 ^ (t + F.mantissaBits - 1) ≤ x

/-- A mantissa and an exponent as numbers of a format have them. -/
structure Canonical (F : Format) (m : ℕ) (e : ℤ) : Prop where
  min_le : F.minExponent ≤ e
  lt : m < 2 ^ F.mantissaBits
  normal : e = F.minExponent ∨ 2 ^ F.mantissaBitsWithoutImplicit ≤ m

/-- The number that a positive value is rounded to, with a sign. -/
def Rounds (F : Format) (s : Sign) (x : ℚ) (u : UnpackedFloat) : Prop :=
  ∃ n t, OnGrid F x t ∧ Nearest n (x / 2 ^ t) ∧
    ((n = 0 ∧ u = .zero s) ∨ ∃ m e h, u = .finite s m e h ∧ Canonical F m e ∧ (m : ℚ) * 2 ^ e = n * 2 ^ t)

theorem two_zpow_pos (e : ℤ) : (0 : ℚ) < 2 ^ e := zpow_pos (by norm_num) e

theorem two_zpow_add (a b : ℤ) : (2 : ℚ) ^ (a + b) = 2 ^ a * 2 ^ b := zpow_add₀ (by norm_num) a b

/-- A whole power as a quotient of natural ones. -/
theorem pow_toNat_eq (x : ℚ) (hx : x ≠ 0) (p : ℤ) : x ^ p * x ^ (-p).toNat = x ^ p.toNat := by
  rw [← zpow_natCast, ← zpow_natCast, ← zpow_add₀ hx]
  congr 1
  omega

theorem mantissaBits_eq (F : Format) : F.mantissaBits = F.mantissaBitsWithoutImplicit + 1 := Nat.add_comm _ _

theorem onGrid_targetExponent (hm : 0 < m) (hx : (m : ℚ) ≤ x ∧ x < m + 1) (e : ℤ) :
    OnGrid F (x * 2 ^ e) (F.targetExponent (totalExponent m e)) := by
  have hlow : (2 : ℚ) ^ (m.log2 : ℤ) ≤ x := by
    have : 2 ^ m.log2 ≤ m := Nat.log2_self_le hm.ne'
    calc (2 : ℚ) ^ (m.log2 : ℤ) = ((2 ^ m.log2 : ℕ) : ℚ) := by push_cast; rw [zpow_natCast]
      _ ≤ m := by exact_mod_cast this
      _ ≤ x := hx.1
  have hhigh : x < (2 : ℚ) ^ ((m.log2 : ℤ) + 1) := by
    have : m + 1 ≤ 2 ^ (m.log2 + 1) := Nat.lt_log2_self
    calc x < (m : ℚ) + 1 := hx.2
      _ ≤ ((2 ^ (m.log2 + 1) : ℕ) : ℚ) := by exact_mod_cast this
      _ = (2 : ℚ) ^ ((m.log2 : ℤ) + 1) := by push_cast; rw [← zpow_natCast]; push_cast; rfl
  have htotal : totalExponent m e = (m.log2 : ℤ) + 1 + e := rfl
  unfold Format.targetExponent
  rw [htotal]
  refine ⟨le_max_right _ _, ?_, ?_⟩
  · calc x * 2 ^ e < 2 ^ ((m.log2 : ℤ) + 1) * 2 ^ e := by gcongr
      _ = 2 ^ ((m.log2 : ℤ) + 1 + e) := (two_zpow_add _ _).symm
      _ ≤ _ := zpow_le_zpow_right₀ (by norm_num) (by omega)
  · by_cases hmin : (m.log2 : ℤ) + 1 + e - F.mantissaBits ≤ F.minExponent
    · exact Or.inl (max_eq_right hmin)
    · refine Or.inr ?_
      rw [max_eq_left (not_le.mp hmin).le]
      calc (2 : ℚ) ^ ((m.log2 : ℤ) + 1 + e - F.mantissaBits + F.mantissaBits - 1) = 2 ^ ((m.log2 : ℤ) + e) := by
            congr 1; ring
        _ = 2 ^ (m.log2 : ℤ) * 2 ^ e := two_zpow_add _ _
        _ ≤ x * 2 ^ e := by gcongr

/-! ### Rounding -/

theorem shiftToTargetExponent_of_lt (hm : m < 2 ^ F.mantissaBits) (he : F.minExponent ≤ e) :
    shiftToTargetExponent F m e .exact = (⟨m, false, false⟩, e) := by
  have hlog : m.log2 < F.mantissaBits := by
    rcases Nat.eq_zero_or_pos m with rfl | hpos
    · rw [mantissaBits_eq]
      exact Nat.succ_pos _
    · exact (Nat.log2_lt hpos.ne').mpr hm
  have ht : F.targetExponent (totalExponent m e) ≤ e := by
    unfold Format.targetExponent totalExponent
    omega
  have hk : (F.targetExponent (totalExponent m e) - e).toNat = 0 := by omega
  unfold shiftToTargetExponent shiftToExponent
  simp only [hk, Nat.cast_zero, add_zero]
  rfl

theorem shiftToTargetExponent_two_pow (he : F.minExponent ≤ e) :
    shiftToTargetExponent F (2 ^ F.mantissaBits) e .exact =
      (⟨2 ^ F.mantissaBitsWithoutImplicit, false, false⟩, e + 1) := by
  have ht : F.targetExponent (totalExponent (2 ^ F.mantissaBits) e) = e + 1 := by
    simp only [Format.targetExponent, totalExponent, Nat.log2_two_pow]
    omega
  have hk : (e + 1 - e).toNat = 1 := by omega
  have hhalf : 2 ^ F.mantissaBits / 2 = 2 ^ F.mantissaBitsWithoutImplicit := by
    rw [mantissaBits_eq, pow_succ, Nat.mul_div_cancel _ (by norm_num)]
  have hbit : (2 ^ F.mantissaBits % 2 != 0) = false := by
    rw [mantissaBits_eq, pow_succ, Nat.mul_mod_left]
    rfl
  unfold shiftToTargetExponent shiftToExponent
  simp only [ht, hk]
  show ((⟨2 ^ F.mantissaBits / 2, 2 ^ F.mantissaBits % 2 != 0, false || false⟩ : ExtendedMantissa), e + (1 : ℕ)) = _
  rw [hhalf, hbit]
  rfl

/-- A rounded mantissa may have one bit too many, a zero. -/
theorem exists_carry {n : ℕ} (hle : n ≤ 2 ^ F.mantissaBits) (hmin : F.minExponent ≤ t)
    (hnormal : t = F.minExponent ∨ 2 ^ F.mantissaBitsWithoutImplicit ≤ n) :
    ∃ m e, shiftToTargetExponent F n t .exact = (⟨m, false, false⟩, e) ∧ Canonical F m e ∧
      (m : ℚ) * 2 ^ e = n * 2 ^ t ∧ (m = 0 → n = 0) := by
  rcases hle.lt_or_eq with hlt | rfl
  · exact ⟨n, t, shiftToTargetExponent_of_lt hlt hmin, ⟨hmin, hlt, hnormal⟩, rfl, id⟩
  · refine ⟨_, _, shiftToTargetExponent_two_pow hmin, ⟨by omega, ?_, Or.inr le_rfl⟩, ?_, ?_⟩
    · exact Nat.pow_lt_pow_right (by norm_num) (by rw [mantissaBits_eq]; exact Nat.lt_succ_self _)
    · rw [two_zpow_add, mantissaBits_eq]
      push_cast
      ring
    · exact fun h => absurd h (by positivity)

/-- Rounding a mantissa with more bits than the format has. -/
theorem rounds_roundWithAccuracy {acc : Accuracy} (hm : 0 < m)
    (hx : Stands (.ofMantissaAndAccuracy m acc) x) (he : e ≤ F.targetExponent (totalExponent m e)) (s : Sign) :
    Rounds F s (x * 2 ^ e) (roundWithAccuracy F s m e acc) := by
  have hmantissa : (ExtendedMantissa.ofMantissaAndAccuracy m acc).mantissa = m := by
    cases acc with
    | exact => rfl
    | inexact o => cases o <;> rfl
  have hbounds := hx.bounds
  rw [hmantissa] at hbounds
  have hgrid := onGrid_targetExponent (F := F) hm hbounds e
  generalize ht : F.targetExponent (totalExponent m e) = t at he hgrid
  obtain ⟨k, hk⟩ : ∃ k : ℕ, (t - e).toNat = k := ⟨_, rfl⟩
  have hek : e + k = t := by omega
  have hfirst : shiftToTargetExponent F m e acc =
      (ExtendedMantissa.ofMantissaAndAccuracy m acc >>> k, t) := by
    unfold shiftToTargetExponent shiftToExponent
    simp only [ht, hk, hek]
  have hscaled : x * 2 ^ e / 2 ^ t = x / 2 ^ k := by
    rw [← hek, two_zpow_add, zpow_natCast]
    field_simp
  have hnearest := (hx.shiftRight k).nearest
  rw [← hscaled] at hnearest
  generalize hn : (ExtendedMantissa.ofMantissaAndAccuracy m acc >>> k).roundedMantissa = n at hnearest
  have hle : n ≤ 2 ^ F.mantissaBits := by
    refine hnearest.le_of_lt ?_
    rw [div_lt_iff₀ (two_zpow_pos t)]
    push_cast
    rw [← zpow_natCast, ← two_zpow_add, add_comm]
    exact hgrid.lt
  have hnormal : t = F.minExponent ∨ 2 ^ F.mantissaBitsWithoutImplicit ≤ n := by
    refine hgrid.normal.imp_right fun h => hnearest.ge_of_le ?_
    have hexp : (F.mantissaBitsWithoutImplicit : ℤ) + t = t + F.mantissaBits - 1 := by
      rw [mantissaBits_eq]
      push_cast
      ring
    rw [le_div_iff₀ (two_zpow_pos t)]
    push_cast
    rw [← zpow_natCast, ← two_zpow_add, hexp]
    exact h
  -- Rounding up may fill the mantissa; a full one is carried into the exponent.
  obtain ⟨m', e', hcarry, hcanonical, hvalue, hzero⟩ := exists_carry hle hgrid.min_le hnormal
  refine ⟨n, t, hgrid, hnearest, ?_⟩
  unfold roundWithAccuracy
  simp only [hfirst, hn, hcarry]
  split
  · rename_i h
    exact Or.inl ⟨hzero h, rfl⟩
  · rename_i h
    exact Or.inr ⟨m', e', Nat.pos_of_ne_zero h, rfl, hcanonical, hvalue⟩

theorem log2_shiftLeft (hm : m ≠ 0) (k : ℕ) : (m <<< k).log2 = m.log2 + k := by
  rw [Nat.shiftLeft_eq]
  refine (Nat.log2_eq_iff (by positivity)).mpr ?_
  have hlow := Nat.log2_self_le hm
  have hhigh := Nat.lt_log2_self (n := m)
  constructor
  · rw [pow_add]
    exact Nat.mul_le_mul_right _ hlow
  · rw [show m.log2 + k + 1 = m.log2 + 1 + k by ring, pow_add]
    exact Nat.mul_lt_mul_of_pos_right hhigh (by positivity)

theorem shiftLeft_mul_zpow (m k : ℕ) (e : ℤ) : ((m <<< k : ℕ) : ℚ) * 2 ^ (e - k) = m * 2 ^ e := by
  rw [Nat.shiftLeft_eq]
  push_cast
  rw [mul_assoc, ← zpow_natCast, ← two_zpow_add]
  congr 2
  ring

theorem rounds_round (hm : 0 < m) (s : Sign) (e : ℤ) : Rounds F s (m * 2 ^ e) (round F s m e) := by
  show Rounds F s _ (roundWithAccuracy F s (m <<< (e - F.targetExponent (totalExponent m e)).toNat)
    (e - (e - F.targetExponent (totalExponent m e)).toNat) .exact)
  generalize ht : F.targetExponent (totalExponent m e) = t
  generalize hk : (e - t).toNat = k
  have htotal : totalExponent (m <<< k) (e - k) = totalExponent m e := by
    unfold totalExponent
    rw [log2_shiftLeft hm.ne']
    push_cast
    ring
  have hle : e - k ≤ F.targetExponent (totalExponent (m <<< k) (e - k)) := by
    rw [htotal, ht]
    omega
  have hpos : 0 < m <<< k := by
    rw [Nat.shiftLeft_eq]
    positivity
  have hexact : Stands (.ofMantissaAndAccuracy (m <<< k) .exact) ((m <<< k : ℕ) : ℚ) := rfl
  have h := rounds_roundWithAccuracy hpos hexact hle s
  rwa [shiftLeft_mul_zpow] at h

theorem rounds_mul {m₁ m₂ : ℕ} {e₁ e₂ : ℤ} {h₁ : 0 < m₁} {h₂ : 0 < m₂}
    (hbits : 2 ^ F.mantissaBitsWithoutImplicit ≤ m₁ * m₂) (s₁ s₂ : Sign) :
    Rounds F (s₁ * s₂) (m₁ * 2 ^ e₁ * (m₂ * 2 ^ e₂)) (mul F (.finite s₁ m₁ e₁ h₁) (.finite s₂ m₂ e₂ h₂)) := by
  have hpos : 0 < m₁ * m₂ := Nat.mul_pos h₁ h₂
  have hlog := (Nat.le_log2 hpos.ne').mpr hbits
  have hle : e₁ + e₂ ≤ F.targetExponent (totalExponent (m₁ * m₂) (e₁ + e₂)) := by
    unfold Format.targetExponent totalExponent
    rw [mantissaBits_eq]
    push_cast
    omega
  have hexact : Stands (.ofMantissaAndAccuracy (m₁ * m₂) .exact) ((m₁ * m₂ : ℕ) : ℚ) := rfl
  have h := rounds_roundWithAccuracy hpos hexact hle (s₁ * s₂)
  rwa [show (m₁ : ℚ) * 2 ^ e₁ * (m₂ * 2 ^ e₂) = ((m₁ * m₂ : ℕ) : ℚ) * 2 ^ (e₁ + e₂) by
    rw [two_zpow_add]; push_cast; ring]

/-- A quotient is its whole part and a fraction, which the remainder tells. -/
theorem exists_fraction (a : ℕ) {b : ℕ} (hb : 0 < b) :
    ∃ f : ℚ, (a : ℚ) / b = (a / b : ℕ) + f ∧ 0 ≤ f ∧ f < 1 ∧ (a % b = 0 ↔ f = 0) ∧ (2 * (a % b) < b ↔ f < 1 / 2) ∧
      (2 * (a % b) = b ↔ f = 1 / 2) := by
  have hb' : (0 : ℚ) < b := by exact_mod_cast hb
  refine ⟨(a % b : ℕ) / b, ?_, by positivity, ?_, ?_, ?_, ?_⟩
  · have : ((b * (a / b) + a % b : ℕ) : ℚ) = a := by exact_mod_cast Nat.div_add_mod a b
    rw [← this]
    push_cast
    field_simp
  · rw [div_lt_one hb']
    exact_mod_cast Nat.mod_lt a hb
  · rw [div_eq_zero_iff, or_iff_left hb'.ne', Nat.cast_eq_zero]
  · rw [div_lt_div_iff₀ hb' (by norm_num), ← Nat.cast_lt (α := ℚ)]
    push_cast
    constructor <;> intro h <;> linarith
  · rw [div_eq_div_iff hb'.ne' (by norm_num), ← Nat.cast_inj (R := ℚ)]
    push_cast
    constructor <;> intro h <;> linarith

/-- A quotient of whole numbers, with what is known of its fraction. -/
theorem stands_div (a : ℕ) {b : ℕ} (hb : 0 < b) :
    Stands (.ofMantissaAndAccuracy (a / b) (accuracyOfFraction (a % b) b)) (a / b) := by
  obtain ⟨f, hdiv, hf0, hf1, hzero, hlt, heq⟩ := exists_fraction a hb
  rw [hdiv]
  unfold accuracyOfFraction
  split
  · rename_i h
    show _ = _
    rw [hzero.mp h, add_zero]
  · rename_i hne
    have hpos : 0 < f := lt_of_le_of_ne hf0 fun h => hne (hzero.mpr h.symm)
    rcases hcmp : compare (2 * (a % b)) b with _ | _ | _
    · have hhalf := hlt.mp (Nat.compare_eq_lt.mp hcmp)
      exact ⟨by linarith, by linarith⟩
    · show _ = _
      rw [heq.mp (Nat.compare_eq_eq.mp hcmp)]
    · have hgt := Nat.compare_eq_gt.mp hcmp
      have hhalf : 1 / 2 < f := lt_of_le_of_ne (not_lt.mp fun h => by have := hlt.mpr h; omega)
        fun h => by have := heq.mpr h.symm; omega
      exact ⟨by linarith, by linarith⟩

theorem log2_bounds (hm : 0 < m) : (2 : ℚ) ^ (m.log2 : ℤ) ≤ m ∧ (m : ℚ) < 2 ^ ((m.log2 : ℤ) + 1) := by
  have hlow := Nat.log2_self_le hm.ne'
  have hhigh := Nat.lt_log2_self (n := m)
  constructor
  · rw [zpow_natCast]
    exact_mod_cast hlow
  · have hcast : ((m.log2 : ℤ) + 1) = ((m.log2 + 1 : ℕ) : ℤ) := by push_cast; rfl
    rw [hcast, zpow_natCast]
    exact_mod_cast hhigh

/-- A quotient lies within a factor of two of a power. -/
theorem quotient_bounds {m₁ m₂ : ℕ} {e₁ e₂ : ℤ} (h₁ : 0 < m₁) (h₂ : 0 < m₂) {t : ℤ}
    (ht : totalExponent m₁ e₁ - totalExponent m₂ e₂ = t) :
    (2 : ℚ) ^ (t - 1) ≤ m₁ / m₂ * 2 ^ (e₁ - e₂) ∧ (m₁ : ℚ) / m₂ * 2 ^ (e₁ - e₂) < 2 ^ (t + 1) := by
  obtain ⟨hlow₁, hhigh₁⟩ := log2_bounds h₁
  obtain ⟨hlow₂, hhigh₂⟩ := log2_bounds h₂
  have hm₂ : (0 : ℚ) < m₂ := by exact_mod_cast h₂
  have htlog : t = m₁.log2 + e₁ - m₂.log2 - e₂ := by
    unfold totalExponent at ht
    omega
  constructor
  · have hsplit : t - 1 = (m₁.log2 : ℤ) - (m₂.log2 + 1) + (e₁ - e₂) := by omega
    rw [hsplit, two_zpow_add, zpow_sub₀ (by norm_num) (m₁.log2 : ℤ)]
    gcongr
  · have hsplit : t + 1 = ((m₁.log2 : ℤ) + 1) - m₂.log2 + (e₁ - e₂) := by omega
    rw [hsplit, two_zpow_add, zpow_sub₀ (by norm_num) ((m₁.log2 : ℤ) + 1)]
    gcongr

theorem rounds_div {m₁ m₂ : ℕ} {e₁ e₂ : ℤ} {h₁ : 0 < m₁} {h₂ : 0 < m₂}
    (hnormal : (2 : ℚ) ^ (F.minExponent + F.mantissaBits) ≤ m₁ * 2 ^ e₁ / (m₂ * 2 ^ e₂)) (s₁ s₂ : Sign) :
    Rounds F (s₁ / s₂) (m₁ * 2 ^ e₁ / (m₂ * 2 ^ e₂)) (div F (.finite s₁ m₁ e₁ h₁) (.finite s₂ m₂ e₂ h₂)) := by
  obtain ⟨T, hT⟩ : ∃ T, totalExponent m₁ e₁ - totalExponent m₂ e₂ = T := ⟨_, rfl⟩
  obtain ⟨habove, hbelow⟩ := quotient_bounds h₁ h₂ hT
  have hm₂ : (0 : ℚ) < m₂ := by exact_mod_cast h₂
  have hquotient : (m₁ : ℚ) * 2 ^ e₁ / (m₂ * 2 ^ e₂) = m₁ / m₂ * 2 ^ (e₁ - e₂) := by
    rw [zpow_sub₀ (by norm_num)]
    field_simp
  rw [hquotient] at hnormal ⊢
  have hmin : F.minExponent + F.mantissaBits < T + 1 :=
    (zpow_lt_zpow_iff_right₀ (by norm_num)).mp (hnormal.trans_lt hbelow)
  have htarget : F.targetExponent T = T - F.mantissaBits := by
    unfold Format.targetExponent
    omega
  obtain ⟨t, ht⟩ : ∃ t, min (e₁ - e₂) (F.targetExponent T) = t := ⟨_, rfl⟩
  obtain ⟨k, hk⟩ : ∃ k : ℕ, (e₁ - e₂ - t).toNat = k := ⟨_, rfl⟩
  have hkt : (k : ℤ) + t = e₁ - e₂ := by omega
  have hdiv : div F (.finite s₁ m₁ e₁ h₁) (.finite s₂ m₂ e₂ h₂) =
      roundWithAccuracy F (s₁ / s₂) ((m₁ <<< k) / m₂) t (accuracyOfFraction ((m₁ <<< k) % m₂) m₂) := by
    simp only [UnpackedFloat.div, divCore, hT, ht, hk]
  have hscaled : ((m₁ <<< k : ℕ) : ℚ) / m₂ * 2 ^ t = m₁ / m₂ * 2 ^ (e₁ - e₂) := by
    rw [← hkt, two_zpow_add, zpow_natCast, Nat.shiftLeft_eq]
    push_cast
    ring
  have hstands := stands_div (m₁ <<< k) h₂
  -- The dividend was shifted far enough for the quotient to fill the mantissa.
  have hbits : 2 ^ F.mantissaBitsWithoutImplicit ≤ (m₁ <<< k) / m₂ := by
    have hle : (2 : ℚ) ^ ((F.mantissaBitsWithoutImplicit : ℤ) + t) ≤ ((m₁ <<< k : ℕ) : ℚ) / m₂ * 2 ^ t := by
      rw [hscaled]
      refine (zpow_le_zpow_right₀ (by norm_num) ?_).trans habove
      have := mantissaBits_eq F
      omega
    rw [two_zpow_add, mul_le_mul_iff_left₀ (two_zpow_pos t), zpow_natCast, le_div_iff₀ hm₂] at hle
    exact (Nat.le_div_iff_mul_le h₂).mpr (by exact_mod_cast hle)
  have hpos : 0 < (m₁ <<< k) / m₂ := (Nat.two_pow_pos _).trans_le hbits
  have hlog := (Nat.le_log2 hpos.ne').mpr hbits
  have hle : t ≤ F.targetExponent (totalExponent ((m₁ <<< k) / m₂) t) := by
    unfold Format.targetExponent totalExponent
    rw [mantissaBits_eq]
    push_cast
    omega
  have h := rounds_roundWithAccuracy hpos hstands hle (s₁ / s₂)
  rwa [hscaled, ← hdiv] at h

/-! ### What a value is rounded to -/

theorem Canonical.le_of_eq {m₁ m₂ : ℕ} {e₁ e₂ : ℤ} (h₁ : Canonical F m₁ e₁) (h₂ : Canonical F m₂ e₂)
    (h : (m₁ : ℚ) * 2 ^ e₁ = m₂ * 2 ^ e₂) : e₂ ≤ e₁ := by
  by_contra hlt
  have hnormal : 2 ^ F.mantissaBitsWithoutImplicit ≤ m₂ := h₂.normal.resolve_left (by have := h₁.min_le; omega)
  have hlow : (2 : ℚ) ^ F.mantissaBitsWithoutImplicit ≤ m₂ := by exact_mod_cast hnormal
  have hhigh : (m₁ : ℚ) < 2 ^ F.mantissaBits := by exact_mod_cast h₁.lt
  have hchain : (2 : ℚ) ^ F.mantissaBits * 2 ^ e₁ ≤ m₁ * 2 ^ e₁ := by
    calc (2 : ℚ) ^ F.mantissaBits * 2 ^ e₁ = 2 ^ F.mantissaBitsWithoutImplicit * 2 ^ (e₁ + 1) := by
          rw [mantissaBits_eq, pow_succ, two_zpow_add]
          ring
      _ ≤ m₂ * 2 ^ e₂ := by
          gcongr
          · norm_num
          · omega
      _ = m₁ * 2 ^ e₁ := h.symm
  exact absurd (le_of_mul_le_mul_right hchain (two_zpow_pos e₁)) (not_le.mpr hhigh)

theorem Canonical.unique {m₁ m₂ : ℕ} {e₁ e₂ : ℤ} (h₁ : Canonical F m₁ e₁) (h₂ : Canonical F m₂ e₂)
    (h : (m₁ : ℚ) * 2 ^ e₁ = m₂ * 2 ^ e₂) : m₁ = m₂ ∧ e₁ = e₂ := by
  have he := le_antisymm (h₂.le_of_eq h₁ h.symm) (h₁.le_of_eq h₂ h)
  subst he
  exact ⟨by exact_mod_cast mul_right_cancel₀ (two_zpow_pos e₁).ne' h, rfl⟩

/-- The values that are rounded to a number. Its lower neighbour is nearer than the upper one if it has a power of
    two before it. The ends are rounded to an even mantissa. -/
def Admitted (narrowBelow : Bool) (m : ℕ) (e : ℤ) (x : ℚ) : Prop :=
  let low : ℚ := (m - if narrowBelow then 1 / 4 else 1 / 2) * 2 ^ e
  let high : ℚ := (m + 1 / 2) * 2 ^ e
  if m % 2 = 0 then low ≤ x ∧ x ≤ high else low < x ∧ x < high

theorem Admitted.bounds {narrowBelow : Bool} (h : Admitted narrowBelow m e x) :
    ((m : ℚ) - if narrowBelow then 1 / 4 else 1 / 2) * 2 ^ e ≤ x ∧ x ≤ (m + 1 / 2) * 2 ^ e := by
  unfold Admitted at h
  dsimp only at h
  split at h
  · exact h
  · exact ⟨h.1.le, h.2.le⟩

theorem Admitted.nearest {narrowBelow : Bool} (h : Admitted narrowBelow m e x) : Nearest m (x / 2 ^ e) := by
  have hpos := two_zpow_pos e
  have hquarter : (if narrowBelow then 1 / 4 else 1 / 2 : ℚ) ≤ 1 / 2 := by split <;> norm_num
  have hbounds : (m : ℚ) - 1 / 2 ≤ x / 2 ^ e ∧ x / 2 ^ e ≤ m + 1 / 2 := by
    rw [le_div_iff₀ hpos, div_le_iff₀ hpos]
    refine ⟨le_trans ?_ h.bounds.1, h.bounds.2⟩
    gcongr
  have habs : |x / 2 ^ e - m| ≤ 1 / 2 := abs_le.mpr ⟨by linarith [hbounds.1], by linarith [hbounds.2]⟩
  rcases habs.lt_or_eq with hlt | heq
  · exact Or.inl hlt
  refine Or.inr ⟨heq, ?_⟩
  -- Between an odd mantissa and an end of its interval there is room.
  by_contra hodd
  unfold Admitted at h
  dsimp only at h
  rw [if_neg hodd, ← lt_div_iff₀ hpos, ← div_lt_iff₀ hpos] at h
  rcases eq_or_eq_neg_of_abs_eq heq with heq | heq <;> linarith [h.1, h.2]

section
variable {narrowBelow : Bool} {n : ℕ}

/-- A value in the interval of a number is not on a coarser grid. -/
theorem Admitted.grid_le (hx : Admitted narrowBelow m e x) (hcanonical : Canonical F m e) (hgrid : OnGrid F x t) :
    t ≤ e := by
  by_contra hte
  have hmlt : (m : ℚ) + 1 ≤ 2 ^ F.mantissaBits := by exact_mod_cast hcanonical.lt
  have hle : (2 : ℚ) ^ F.mantissaBits * 2 ^ e ≤ x := by
    rw [← zpow_natCast, ← two_zpow_add]
    refine le_trans (zpow_le_zpow_right₀ (by norm_num) ?_)
      (hgrid.normal.resolve_left (by have := hcanonical.min_le; omega))
    omega
  have hlt : ((m : ℚ) + 1 / 2) * 2 ^ e < 2 ^ F.mantissaBits * 2 ^ e := by
    gcongr
    linarith
  exact absurd (hle.trans hx.bounds.2) (not_le.mpr hlt)

/-- A value on a finer grid is just below a number that is the least of its binade. -/
theorem Admitted.least (hx : Admitted narrowBelow m e x) (hcanonical : Canonical F m e) (hgrid : OnGrid F x t)
    (hte : t < e) : m = 2 ^ F.mantissaBitsWithoutImplicit ∧ x < m * 2 ^ e := by
  have hp := mantissaBits_eq F
  have hnormal := hcanonical.normal.resolve_left (by have := hgrid.min_le; omega)
  have hxlt : x < 2 ^ F.mantissaBitsWithoutImplicit * 2 ^ e := by
    refine hgrid.lt.trans_le ?_
    rw [← zpow_natCast, ← two_zpow_add]
    exact zpow_le_zpow_right₀ (by norm_num) (by omega)
  have hleast : m = 2 ^ F.mantissaBitsWithoutImplicit := by
    refine le_antisymm ?_ hnormal
    by_contra hlt
    have hsucc : (2 : ℚ) ^ F.mantissaBitsWithoutImplicit + 1 ≤ m := by exact_mod_cast not_le.mp hlt
    have hquarter : (if narrowBelow then 1 / 4 else 1 / 2 : ℚ) ≤ 1 / 2 := by split <;> norm_num
    have hle : (2 : ℚ) ^ F.mantissaBitsWithoutImplicit * 2 ^ e ≤ x := by
      refine le_trans ?_ hx.bounds.1
      gcongr
      linarith
    exact absurd hxlt (not_lt.mpr hle)
  exact ⟨hleast, by rw [hleast]; exact_mod_cast hxlt⟩

/-- On a finer grid the number has twice its mantissa. -/
theorem Admitted.nearest_double (hx : Admitted true m e x) (hm : 0 < m) (hxlt : x < m * 2 ^ e) (hgrid : OnGrid F x t)
    (hleast : m = 2 ^ F.mantissaBitsWithoutImplicit) (hte : t < e) : e = t + 1 ∧ Nearest (2 * m) (x / 2 ^ t) := by
  have hlow := hx.bounds.1
  rw [if_pos rfl] at hlow
  have hone : (1 : ℚ) ≤ m := by exact_mod_cast hm
  have hpos := two_zpow_pos t
  have het : e = t + 1 := by
    have hmq : (m : ℚ) = 2 ^ F.mantissaBitsWithoutImplicit := by exact_mod_cast hleast
    have hlt : (2 : ℚ) ^ ((F.mantissaBitsWithoutImplicit : ℤ) + e - 1) < 2 ^ (t + F.mantissaBits) := by
      refine lt_of_lt_of_le ?_ (hlow.trans hgrid.lt.le)
      rw [zpow_sub_one₀ (by norm_num), two_zpow_add, zpow_natCast, ← hmq]
      have := two_zpow_pos e
      nlinarith
    have := (zpow_lt_zpow_iff_right₀ (by norm_num : (1 : ℚ) < 2)).mp hlt
    have := mantissaBits_eq F
    omega
  refine ⟨het, ?_⟩
  rw [het, zpow_add_one₀ (by norm_num)] at hlow hxlt
  have hge : 2 * (m : ℚ) - 1 / 2 ≤ x / 2 ^ t := by
    rw [le_div_iff₀ hpos]
    linarith
  have hlt : x / 2 ^ t < 2 * (m : ℚ) := by
    rw [div_lt_iff₀ hpos]
    linarith
  have habs : |x / 2 ^ t - (2 * m : ℕ)| ≤ 1 / 2 := by
    push_cast
    exact abs_le.mpr ⟨by linarith, by linarith⟩
  rcases habs.lt_or_eq with h | h
  · exact Or.inl h
  · exact Or.inr ⟨h, Nat.mul_mod_right 2 m⟩

end

namespace Rounds

variable {u : UnpackedFloat}

/-- A value in the interval of a number is rounded to it. -/
theorem eq_finite {narrowBelow : Bool} (h : Rounds F s x u) (hm : 0 < m) (hcanonical : Canonical F m e)
    (hbelow : narrowBelow = true ↔ m = 2 ^ F.mantissaBitsWithoutImplicit ∧ F.minExponent < e)
    (hx : Admitted narrowBelow m e x) : u = .finite s m e hm := by
  obtain ⟨n, t, hgrid, hn, hu⟩ := h
  have hvalue : (n : ℚ) * 2 ^ t = m * 2 ^ e := by
    rcases (hx.grid_le hcanonical hgrid).lt_or_eq with hte | rfl
    · obtain ⟨hleast, hxlt⟩ := hx.least hcanonical hgrid hte
      have hmin : F.minExponent < e := hgrid.min_le.trans_lt hte
      rw [hbelow.mpr ⟨hleast, hmin⟩] at hx
      obtain ⟨rfl, hdouble⟩ := hx.nearest_double hm hxlt hgrid hleast hte
      rw [hn.unique hdouble, zpow_add_one₀ (by norm_num)]
      push_cast
      ring
    · rw [hn.unique hx.nearest]
  have hpos : (0 : ℚ) < m * 2 ^ e := mul_pos (by exact_mod_cast hm) (two_zpow_pos e)
  rcases hu with ⟨rfl, -⟩ | ⟨m', e', h', rfl, hc, hv⟩
  · rw [Nat.cast_zero, zero_mul] at hvalue
    exact absurd hvalue hpos.ne
  · obtain ⟨rfl, rfl⟩ := hc.unique hcanonical (hv.trans hvalue)
    rfl

/-- A value that a normal number may have is rounded to a number not far from it, and one with few bits exactly. -/
theorem exists_near (h : Rounds F s x u) (hx : 2 ^ (F.minExponent + F.mantissaBits - 1) ≤ x) :
    ∃ m e h, u = .finite s m e h ∧ Canonical F m e ∧ |m * 2 ^ e - x| ≤ x / 2 ^ F.mantissaBits ∧
      ∀ n : ℕ, ∀ k : ℤ, n < 2 ^ F.mantissaBits → x = n * 2 ^ k → (m : ℚ) * 2 ^ e = x := by
  obtain ⟨n, t, hgrid, hn, hu⟩ := h
  have hpos := two_zpow_pos t
  have hxpos : 0 < x := (two_zpow_pos _).trans_le hx
  have hbinade : 2 ^ (t + F.mantissaBits - 1) ≤ x := by
    rcases hgrid.normal with rfl | h
    · exact hx
    · exact h
  have herror : |(n : ℚ) * 2 ^ t - x| ≤ x / 2 ^ F.mantissaBits := by
    calc |(n : ℚ) * 2 ^ t - x| = |x / 2 ^ t - n| * 2 ^ t := by
          rw [← abs_of_pos hpos, ← abs_mul, abs_of_pos hpos, sub_mul, div_mul_cancel₀ _ hpos.ne', abs_sub_comm]
      _ ≤ 1 / 2 * 2 ^ t := by
          gcongr
          exact hn.abs_sub_le
      _ = 2 ^ (t + F.mantissaBits - 1) / 2 ^ F.mantissaBits := by
          rw [← zpow_natCast (2 : ℚ) F.mantissaBits, ← zpow_sub₀ (by norm_num),
            show t + F.mantissaBits - 1 - F.mantissaBits = t - 1 by ring, zpow_sub_one₀ (by norm_num)]
          ring
      _ ≤ x / 2 ^ F.mantissaBits := by gcongr
  -- A value with so few bits is on the grid, where it is its own nearest point.
  have hexact (l : ℕ) (k : ℤ) (hl : l < 2 ^ F.mantissaBits) (hxl : x = l * 2 ^ k) : (n : ℚ) * 2 ^ t = x := by
    have htk : t ≤ k := by
      have hlt : (2 : ℚ) ^ (t + F.mantissaBits - 1) < 2 ^ ((F.mantissaBits : ℤ) + k) := by
        refine hbinade.trans_lt ?_
        rw [hxl, two_zpow_add, zpow_natCast]
        gcongr
        exact_mod_cast hl
      have := (zpow_lt_zpow_iff_right₀ (by norm_num : (1 : ℚ) < 2)).mp hlt
      omega
    obtain ⟨j, rfl⟩ := Int.le.dest htk
    have hscaled : x / 2 ^ t = ((l * 2 ^ j : ℕ) : ℚ) := by
      rw [hxl, two_zpow_add, zpow_natCast]
      push_cast
      field_simp
    rw [hscaled] at hn
    rw [hn.unique (.self _), ← hscaled, div_mul_cancel₀ _ hpos.ne']
  -- It is not rounded to zero, which is too far.
  rcases hu with ⟨rfl, -⟩ | ⟨m, e, hm, rfl, hc, hv⟩
  · rw [Nat.cast_zero, zero_mul, zero_sub, abs_neg, abs_of_pos hxpos] at herror
    have hlt : x / 2 ^ F.mantissaBits < x := by
      refine div_lt_self hxpos (one_lt_pow₀ (by norm_num) ?_)
      rw [mantissaBits_eq]
      exact Nat.succ_ne_zero _
    exact absurd herror (not_le.mpr hlt)
  · rw [← hv] at herror hexact
    exact ⟨m, e, hm, rfl, hc, herror, hexact⟩

end Rounds

end Workboard
