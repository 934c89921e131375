import Workboard.Json.Numeral
import Workboard.Proofs.Rounding

/-! The value of a literal in binary64.

A literal is scaled in three roundings: of its digits, of a power of ten, and of their product or quotient. So
its value is off by little more than three units of the last place (`Numeral.exists_scale`), and by none when all
three have few bits. -/

namespace Workboard

open Float.Model Float.Model.UnpackedFloat

/-- A mantissa and an exponent of binary64 numbers that have all bits of a mantissa. -/
structure IsNormal (m : ℕ) (e : ℤ) : Prop where
  ge : 2 ^ 52 ≤ m
  lt : m < 2 ^ 53
  low : -1074 ≤ e
  high : e ≤ 971

/-- A positive normal number, and its value. -/
def Holds (x : Float) (v : ℚ) : Prop :=
  ∃ m e h, x.toModel.unpack = .finite .positive m e h ∧ IsNormal m e ∧ (m : ℚ) * 2 ^ e = v

/-- A value that a binary64 mantissa has room for. -/
def Short (v : ℚ) : Prop := ∃ n : ℕ, ∃ k : ℤ, n < 2 ^ 53 ∧ v = n * 2 ^ k

/-- A number is nearest to a value. -/
def Rounded (x : Float) (v : ℚ) : Prop := ∃ w, Holds x w ∧ |w - v| ≤ v / 2 ^ 53 ∧ (Short v → w = v)

theorem unpack_pack {s : Sign} {m : ℕ} {e : ℤ} {h : 0 < m} (hnormal : IsNormal m e) :
    (Float.Model.pack (.finite s m e h)).unpack = .finite s m e h := by
  obtain ⟨hm, hlt, hlow, hhigh⟩ := hnormal
  have hlog : m.log2 = 52 := (Nat.log2_eq_iff h.ne').mpr ⟨hm, hlt⟩
  obtain ⟨k, hk⟩ : ∃ k : ℕ, e + 1075 = k := Int.eq_ofNat_of_zero_le (by omega)
  have hbiased : (e + (1023 : ℕ) + (52 : ℕ)).toNat = k := by omega
  have hnot : ¬ 2 ^ 11 ≤ k + 1 := by norm_num; omega
  have hexponent : (BitVec.ofNat 11 k).toNat = k := by
    rw [BitVec.toNat_ofNat]
    exact Nat.mod_eq_of_lt (by omega)
  -- The exponent field of a normal number is neither full nor zero.
  have hfull : BitVec.ofNat 11 k ≠ -1#11 := fun h => by
    have := congrArg BitVec.toNat h
    rw [hexponent] at this
    have : k = 2047 := this
    omega
  have hzero : BitVec.ofNat 11 k ≠ 0#11 := fun h => by
    have := congrArg BitVec.toNat h
    rw [hexponent] at this
    have : k = 0 := this
    omega
  have hmantissa : (1#1 ++ BitVec.ofNat 52 m).toNat = m := by
    rw [BitVec.toNat_append, ← Nat.shiftLeft_add_eq_or_of_lt (BitVec.isLt _), BitVec.toNat_ofNat]
    show 1 <<< 52 + m % 2 ^ 52 = m
    omega
  have hpack : UnpackedFloat.pack .binary64 (.finite s m e h) =
      packComponents .binary64 s (BitVec.ofNat 11 k) (BitVec.ofNat 52 m) := by
    show (if 2 ^ 11 ≤ (e + (1023 : ℕ) + (52 : ℕ)).toNat + 1 then packedInfinity .binary64 s
      else if m.log2 + 1 = 53 then
        packComponents .binary64 s (BitVec.ofNat 11 (e + (1023 : ℕ) + (52 : ℕ)).toNat) (BitVec.ofNat 52 m)
      else packComponents .binary64 s 0#11 (BitVec.ofNat 52 m)) = _
    rw [hbiased, if_neg hnot, hlog, if_pos rfl]
  show UnpackedFloat.unpack .binary64 (UnpackedFloat.pack .binary64 (.finite s m e h)) = _
  rw [hpack]
  unfold UnpackedFloat.unpack
  simp only [unpackMantissa_packComponents, unpackExponent_packComponents, unpackSign_packComponents,
    Sign.ofBitVec_toBitVec]
  rw [if_neg hfull, if_neg hzero]
  congr 1
  rw [hexponent]
  show (k : ℤ) - ((1023 : ℕ) + (52 : ℕ)) = e
  omega

theorem Holds.isInf {x : Float} {v : ℚ} (h : Holds x v) : x.isInf = false := by
  obtain ⟨m, e, hm, hx, -⟩ := h
  show x.toModel.unpack.isInf = false
  rw [hx]
  rfl

theorem Holds.pos {x : Float} {v : ℚ} (h : Holds x v) : 0 < v := by
  obtain ⟨m, e, hm, -, -, rfl⟩ := h
  exact mul_pos (by exact_mod_cast hm) (two_zpow_pos e)

/-- A value in the middle of the range is rounded to one that is normal. -/
theorem rounded_pack {v : ℚ} {u : UnpackedFloat} (h : Rounds .binary64 .positive v u) (hlow : 2 ^ (-200 : ℤ) ≤ v)
    (hhigh : v ≤ 2 ^ (200 : ℤ)) : Rounded (.ofModel (.pack u)) v := by
  have hmin : Format.binary64.minExponent = -1074 := by decide
  have hbits : (Format.binary64.mantissaBits : ℤ) = 53 := rfl
  obtain ⟨m, e, hm, rfl, hcanonical, herror, hexact⟩ := h.exists_near <| by
    rw [hmin, hbits]
    exact (zpow_le_zpow_right₀ (by norm_num) (by norm_num)).trans hlow
  have herror : |(m : ℚ) * 2 ^ e - v| ≤ v / 2 ^ 53 := herror
  have hpos : 0 < v := (two_zpow_pos _).trans_le hlow
  have hmlt : m < 2 ^ 53 := hcanonical.lt
  have hbounds : v / 2 ≤ m * 2 ^ e ∧ (m : ℚ) * 2 ^ e ≤ 2 * v := by
    have := abs_le.mp herror
    constructor <;> linarith
  have he : -1074 < e := by
    have hlt : (2 : ℚ) ^ (-201 : ℤ) < 2 ^ (53 + e) := by
      calc (2 : ℚ) ^ (-201 : ℤ) = 2 ^ (-200 : ℤ) / 2 := by norm_num
        _ ≤ v / 2 := div_le_div_of_nonneg_right hlow zero_le_two
        _ ≤ m * 2 ^ e := hbounds.1
        _ < 2 ^ 53 * 2 ^ e := by
          gcongr
          exact_mod_cast hmlt
        _ = 2 ^ (53 + e) := by rw [two_zpow_add]; norm_num
    have := (zpow_lt_zpow_iff_right₀ (by norm_num : (1 : ℚ) < 2)).mp hlt
    omega
  have hnormal : 2 ^ 52 ≤ m := hcanonical.normal.resolve_left (by rw [hmin]; omega)
  have hetop : e ≤ 971 := by
    have hle : (2 : ℚ) ^ e ≤ 2 ^ (201 : ℤ) := by
      calc (2 : ℚ) ^ e ≤ m * 2 ^ e := le_mul_of_one_le_left (two_zpow_pos e).le (by exact_mod_cast hm)
        _ ≤ 2 * 2 ^ (200 : ℤ) := by linarith [hbounds.2]
        _ = 2 ^ (201 : ℤ) := by norm_num
    have := (zpow_le_zpow_iff_right₀ (by norm_num : (1 : ℚ) < 2)).mp hle
    omega
  have hnormal : IsNormal m e := ⟨hnormal, hmlt, he.le, hetop⟩
  exact ⟨_, ⟨m, e, hm, unpack_pack hnormal, hnormal, rfl⟩, herror,
    fun ⟨n, k, hn, hv⟩ => hexact n k hn hv⟩

theorem Holds.unpack_neg {x : Float} {v : ℚ} (h : Holds x v) (negative : Bool) :
    ∃ s m e h, (if negative then -x else x).toModel.unpack = .finite s m e h ∧
      (s = .negative ↔ negative = true) ∧ (m : ℚ) * 2 ^ e = v := by
  obtain ⟨m, e, hm, hx, hnormal, hv⟩ := h
  cases negative with
  | false => exact ⟨.positive, m, e, hm, hx, by simp, hv⟩
  | true =>
    refine ⟨.negative, m, e, hm, ?_, by simp, hv⟩
    have hneg : -x = .ofModel (.pack (.finite .negative m e hm)) := by
      show Float.ofModel (.pack x.toModel.unpack.neg) = _
      rw [hx]
      rfl
    rw [if_pos rfl, hneg]
    exact unpack_pack hnormal

theorem rounded_mul {x y : Float} {v w : ℚ} (hx : Holds x v) (hy : Holds y w) (hlow : 2 ^ (-200 : ℤ) ≤ v * w)
    (hhigh : v * w ≤ 2 ^ (200 : ℤ)) : Rounded (x * y) (v * w) := by
  obtain ⟨m₁, e₁, h₁, hx, hbits, rfl⟩ := hx
  obtain ⟨m₂, e₂, h₂, hy, -, rfl⟩ := hy
  have hmul : x * y = .ofModel (.pack (.mul .binary64 (.finite .positive m₁ e₁ h₁) (.finite .positive m₂ e₂ h₂))) := by
    show Float.ofModel (.pack (.mul .binary64 x.toModel.unpack y.toModel.unpack)) = _
    rw [hx, hy]
  rw [hmul]
  exact rounded_pack (rounds_mul (hbits.ge.trans (Nat.le_mul_of_pos_right m₁ h₂)) _ _) hlow hhigh

theorem rounded_div {x y : Float} {v w : ℚ} (hx : Holds x v) (hy : Holds y w) (hlow : 2 ^ (-200 : ℤ) ≤ v / w)
    (hhigh : v / w ≤ 2 ^ (200 : ℤ)) : Rounded (x / y) (v / w) := by
  obtain ⟨m₁, e₁, h₁, hx, -, rfl⟩ := hx
  obtain ⟨m₂, e₂, h₂, hy, -, rfl⟩ := hy
  have hdiv : x / y = .ofModel (.pack (.div .binary64 (.finite .positive m₁ e₁ h₁) (.finite .positive m₂ e₂ h₂))) := by
    show Float.ofModel (.pack (.div .binary64 x.toModel.unpack y.toModel.unpack)) = _
    rw [hx, hy]
  rw [hdiv]
  refine rounded_pack (rounds_div (le_trans ?_ hlow) _ _) hlow hhigh
  exact zpow_le_zpow_right₀ (by norm_num) (by decide)

theorem rounded_ofNat {n : ℕ} (hn : 0 < n) (hlt : n < 2 ^ 64) : Rounded (UInt64.ofNat n).toFloat n := by
  have hround : (UInt64.ofNat n).toFloat = .ofModel (.pack (.round .binary64 .positive n 0)) := by
    have hvalue : (UInt64.ofNat n).toNat = n := by
      rw [UInt64.toNat_ofNat']
      exact Nat.mod_eq_of_lt hlt
    show Float.ofModel (.pack (.normalize .binary64 (((UInt64.ofNat n).toNat : ℕ) : ℤ) 0 .positive)) = _
    rw [hvalue]
    unfold UnpackedFloat.normalize
    rw [show compare (n : ℤ) 0 = .gt from Int.compare_eq_gt.mpr (by exact_mod_cast hn)]
    rfl
  have hone : (1 : ℚ) ≤ n := by exact_mod_cast hn
  have htop : (n : ℚ) ≤ 2 ^ 64 := by exact_mod_cast hlt.le
  have h := rounds_round (F := .binary64) hn .positive 0
  rw [zpow_zero, mul_one] at h
  rw [hround]
  refine rounded_pack h (le_trans ?_ hone) (htop.trans ?_) <;> norm_num

theorem ofScientific_one (k : ℕ) : Float.ofScientific 1 false k = .ofModel (.ofScientific 1 k) := by
  by_cases hk : k ≤ 22
  · have htable : ∀ k : Fin 23, Float.ofScientific 1 false k = .ofModel (.ofScientific 1 (k : ℕ)) := by decide +kernel
    exact htable ⟨k, by omega⟩
  · unfold Float.ofScientific
    rw [dif_neg fun h => hk h.2]
    rfl

theorem rounded_power {k : ℕ} (hk : k ≤ 60) : Rounded (Float.ofScientific 1 false k) (10 ^ k) := by
  have hbits : 2 ^ 52 ≤ (1 <<< 53) * 10 ^ k := le_trans (by decide) (Nat.le_mul_of_pos_right _ (by positivity))
  obtain ⟨one, hone⟩ : ∃ u, u = UnpackedFloat.finite .positive (1 <<< 53) (-(53 : ℕ)) (by decide) := ⟨_, rfl⟩
  obtain ⟨power, hpower⟩ : ∃ u, u = UnpackedFloat.finite .positive (10 ^ k) 0 (by positivity) := ⟨_, rfl⟩
  have h : Rounds .binary64 .positive (10 ^ k) (.mul .binary64 one power) := by
    have hvalue : (((1 <<< 53 : ℕ) : ℚ)) * 2 ^ (-(53 : ℕ) : ℤ) * (((10 ^ k : ℕ) : ℚ) * 2 ^ (0 : ℤ)) = 10 ^ k := by
      push_cast
      norm_num
    rw [hone, hpower, ← hvalue]
    exact rounds_mul hbits .positive .positive
  rw [ofScientific_one]
  have hmodel : Float.Model.ofScientific 1 k = .pack (.mul .binary64 one power) := by
    rw [hone, hpower]
    show Float.Model.pack (UnpackedFloat.ofScientific .binary64 1 k) = _
    unfold UnpackedFloat.ofScientific
    rw [dif_neg (by decide), if_neg (by show ¬ (k : ℤ) > 2 ^ 11; omega),
      if_neg (by show ¬ (k : ℤ) < -((2 ^ 11 : ℤ) + (Nat.log2 1 : ℕ)); omega), if_pos (by omega)]
    rfl
  rw [hmodel]
  refine rounded_pack h ?_ ?_
  · calc (2 : ℚ) ^ (-200 : ℤ) ≤ 1 := by norm_num
      _ ≤ 10 ^ k := one_le_pow₀ (by norm_num)
  · calc (10 : ℚ) ^ k ≤ 10 ^ 60 := pow_le_pow_right₀ (by norm_num) hk
      _ ≤ 2 ^ (200 : ℤ) := by norm_num

/-! ### Scaling -/

/-- Nearness with the error of one rounding, as bounds. -/
theorem Rounded.bounds {x : Float} {v : ℚ} (h : Rounded x v) :
    ∃ w, Holds x w ∧ v * (1 - 1 / 2 ^ 53) ≤ w ∧ w ≤ v * (1 + 1 / 2 ^ 53) ∧ (Short v → w = v) := by
  obtain ⟨w, hx, herror, hexact⟩ := h
  obtain ⟨hlow, hhigh⟩ := abs_le.mp herror
  exact ⟨w, hx, by linarith, by linarith, hexact⟩

theorem short_ten_pow {k : ℕ} (hk : k ≤ 22) : Short (10 ^ k) := by
  refine ⟨5 ^ k, k, ?_, ?_⟩
  · calc 5 ^ k ≤ 5 ^ 22 := Nat.pow_le_pow_right (by norm_num) hk
      _ < 2 ^ 53 := by norm_num
  · rw [zpow_natCast]
    push_cast
    rw [← mul_pow]
    norm_num

/-- A third rounding adds its error to that of two. -/
theorem near_of_bounds {v r w low high : ℚ} (hv : 0 ≤ v) (hrlow : v * low ≤ r) (hrhigh : r ≤ v * high)
    (hwlow : r * (1 - 1 / 2 ^ 53) ≤ w) (hwhigh : w ≤ r * (1 + 1 / 2 ^ 53))
    (hlow : 1 - 301 / 100 / 2 ^ 53 ≤ low * (1 - 1 / 2 ^ 53)) (hhigh : high * (1 + 1 / 2 ^ 53) ≤ 1 + 301 / 100 / 2 ^ 53) :
    |w - v| ≤ 301 / 100 / 2 ^ 53 * v := by
  have hle : v * (1 - 301 / 100 / 2 ^ 53) ≤ w := by
    calc v * (1 - 301 / 100 / 2 ^ 53) ≤ v * (low * (1 - 1 / 2 ^ 53)) := by gcongr
      _ = v * low * (1 - 1 / 2 ^ 53) := by ring
      _ ≤ r * (1 - 1 / 2 ^ 53) := mul_le_mul_of_nonneg_right hrlow (by norm_num)
      _ ≤ w := hwlow
  have hge : w ≤ v * (1 + 301 / 100 / 2 ^ 53) := by
    calc w ≤ r * (1 + 1 / 2 ^ 53) := hwhigh
      _ ≤ v * high * (1 + 1 / 2 ^ 53) := by gcongr
      _ = v * (high * (1 + 1 / 2 ^ 53)) := by ring
      _ ≤ v * (1 + 301 / 100 / 2 ^ 53) := by gcongr
  exact abs_le.mpr ⟨by linarith, by linarith⟩

section
variable {x y : Float} {n k : ℕ}

/-- The digits over a power of ten, all rounded. -/
theorem near_div (hx : Rounded x n) (hy : Rounded y (10 ^ k)) (hn : (1 : ℚ) ≤ n) (hlt : (n : ℚ) < 10 ^ 17) (hk : k ≤ 55) :
    ∃ w, Holds (x / y) w ∧ |w - n / 10 ^ k| ≤ 301 / 100 / 2 ^ 53 * (n / 10 ^ k) ∧
      (Short n → k ≤ 22 → Short (n / 10 ^ k) → w = n / 10 ^ k) := by
  obtain ⟨a, ha, halow, hahigh, haexact⟩ := hx.bounds
  obtain ⟨b, hb, hblow, hbhigh, hbexact⟩ := hy.bounds
  have hapos := ha.pos
  have hbpos := hb.pos
  have hpower : (1 : ℚ) ≤ 10 ^ k := one_le_pow₀ (by norm_num)
  have hktop : (10 : ℚ) ^ k ≤ 10 ^ 55 := pow_le_pow_right₀ (by norm_num) hk
  have hlow : (n : ℚ) / 10 ^ k * ((1 - 1 / 2 ^ 53) / (1 + 1 / 2 ^ 53)) ≤ a / b := by
    rw [div_mul_div_comm]
    exact div_le_div₀ hapos.le halow hbpos hbhigh
  have hhigh : a / b ≤ (n : ℚ) / 10 ^ k * ((1 + 1 / 2 ^ 53) / (1 - 1 / 2 ^ 53)) := by
    rw [div_mul_div_comm]
    exact div_le_div₀ (by positivity) hahigh (by linarith) hblow
  -- Neither operand is off by a factor of two, so the quotient is in the range of normal numbers.
  obtain ⟨w, hw, hwlow, hwhigh, hwexact⟩ := (rounded_div ha hb
    (calc (2 : ℚ) ^ (-200 : ℤ) ≤ (1 / 2) / (2 * 10 ^ 55) := by norm_num
      _ ≤ a / b := div_le_div₀ hapos.le (by linarith) hbpos (by linarith))
    (calc a / b ≤ (2 * 10 ^ 17) / (1 / 2) := div_le_div₀ (by norm_num) (by linarith) (by norm_num) (by linarith)
      _ ≤ 2 ^ (200 : ℤ) := by norm_num)).bounds
  refine ⟨w, hw, near_of_bounds (by positivity) hlow hhigh hwlow hwhigh (by norm_num) (by norm_num), fun hs hk22 hshort => ?_⟩
  rw [haexact hs, hbexact (short_ten_pow hk22)] at hwexact
  exact hwexact hshort

/-- The digits times a power of ten, all rounded. -/
theorem near_mul (hx : Rounded x n) (hy : Rounded y (10 ^ k)) (hn : (1 : ℚ) ≤ n) (hlt : (n : ℚ) < 10 ^ 17) (hk : k ≤ 40) :
    ∃ w, Holds (x * y) w ∧ |w - n * 10 ^ k| ≤ 301 / 100 / 2 ^ 53 * (n * 10 ^ k) ∧
      (Short n → k ≤ 22 → Short (n * 10 ^ k) → w = n * 10 ^ k) := by
  obtain ⟨a, ha, halow, hahigh, haexact⟩ := hx.bounds
  obtain ⟨b, hb, hblow, hbhigh, hbexact⟩ := hy.bounds
  have hapos := ha.pos
  have hbpos := hb.pos
  have hpower : (1 : ℚ) ≤ 10 ^ k := one_le_pow₀ (by norm_num)
  have hktop : (10 : ℚ) ^ k ≤ 10 ^ 40 := pow_le_pow_right₀ (by norm_num) hk
  have hlow : (n : ℚ) * 10 ^ k * ((1 - 1 / 2 ^ 53) * (1 - 1 / 2 ^ 53)) ≤ a * b := by
    rw [mul_mul_mul_comm]
    exact mul_le_mul halow hblow (by linarith) hapos.le
  have hhigh : a * b ≤ (n : ℚ) * 10 ^ k * ((1 + 1 / 2 ^ 53) * (1 + 1 / 2 ^ 53)) := by
    rw [mul_mul_mul_comm]
    exact mul_le_mul hahigh hbhigh hbpos.le (by positivity)
  obtain ⟨w, hw, hwlow, hwhigh, hwexact⟩ := (rounded_mul ha hb
    (calc (2 : ℚ) ^ (-200 : ℤ) ≤ (1 / 2) * (1 / 2) := by norm_num
      _ ≤ a * b := mul_le_mul (by linarith) (by linarith) (by norm_num) hapos.le)
    (calc a * b ≤ (2 * 10 ^ 17) * (2 * 10 ^ 40) := mul_le_mul (by linarith) (by linarith) hbpos.le (by norm_num)
      _ ≤ 2 ^ (200 : ℤ) := by norm_num)).bounds
  refine ⟨w, hw, near_of_bounds (by positivity) hlow hhigh hwlow hwhigh (by norm_num) (by norm_num), fun hs hk22 hshort => ?_⟩
  rw [haexact hs, hbexact (short_ten_pow hk22)] at hwexact
  exact hwexact hshort

end

/-- The digits of a literal are scaled in three roundings. -/
theorem Numeral.exists_scale {n : ℕ} {e : ℤ} (hn : 0 < n) (hlt : n < 10 ^ 17) (hlow : -55 ≤ e) (hhigh : e ≤ 40) :
    ∃ y w, scale 4 (UInt64.ofNat n).toFloat e = some y ∧ Holds y w ∧
      |w - n * 10 ^ e| ≤ 301 / 100 / 2 ^ 53 * (n * 10 ^ e) ∧
      (Short n → e.natAbs ≤ 22 → Short (n * 10 ^ e) → w = n * 10 ^ e) := by
  obtain ⟨k, hk⟩ : ∃ k, e.natAbs = k := ⟨_, rfl⟩
  have hk308 : k ≤ 308 := by omega
  have hdigits := rounded_ofNat hn (hlt.trans (by norm_num))
  have hpower := rounded_power (k := k) (by omega)
  have hone : (1 : ℚ) ≤ n := by exact_mod_cast hn
  have htop : (n : ℚ) < 10 ^ 17 := by exact_mod_cast hlt
  rcases lt_or_ge e 0 with he | he
  · have hke : (n : ℚ) * 10 ^ e = n / 10 ^ k := by
      rw [show e = -(k : ℤ) by omega, zpow_neg, zpow_natCast, div_eq_mul_inv]
    obtain ⟨w, hw, hnear, hexact⟩ := near_div hdigits hpower hone htop (by omega)
    rw [hke, hk]
    refine ⟨_, w, ?_, hw, hnear, hexact⟩
    unfold scale
    rw [if_pos (hk ▸ hk308), if_pos he, hk]
  · have hke : (n : ℚ) * 10 ^ e = n * 10 ^ k := by
      rw [show e = (k : ℤ) by omega, zpow_natCast]
    obtain ⟨w, hw, hnear, hexact⟩ := near_mul hdigits hpower hone htop (by omega)
    rw [hke, hk]
    refine ⟨_, w, ?_, hw, hnear, hexact⟩
    unfold scale
    rw [if_pos (hk ▸ hk308), if_neg (not_lt.mpr he), hk]
    exact if_neg (by rw [hw.isInf]; exact Bool.false_ne_true)

end Workboard
