import Workboard.Decimal.Shortest
import Workboard.Proofs.Rounding

/-! The shortest decimal of a binary32 value.

The search ends at nine digits at the latest (`Binary.shortest_spec`), with a decimal that rounds to the value. With
few digits that may be close to an end of the interval of the value, but with many it is the nearest of its grid,
and all values near it round to the same. -/

namespace Workboard

namespace Binary

variable {b : Binary} {d : ℕ} {p : ℤ}

def value (b : Binary) : ℚ := b.mantissa * 2 ^ b.exponent

/-- The values of binary32 numbers. -/
structure IsSingle (b : Binary) : Prop where
  pos : 0 < b.mantissa
  lt : b.mantissa < 2 ^ 24
  low : -149 ≤ b.exponent
  high : b.exponent ≤ 104
  normal : b.exponent = -149 ∨ 2 ^ 23 ≤ b.mantissa
  narrow : b.narrowBelow = true ↔ b.mantissa = 2 ^ 23 ∧ -149 < b.exponent

/-- Whether a value rounds to the binary value. -/
def Takes (b : Binary) (x : ℚ) : Prop := Admitted b.narrowBelow b.mantissa b.exponent x

theorem raise_mul (base : ℕ) (hb : (base : ℚ) ≠ 0) (e : ℤ) :
    (base : ℚ) ^ e * raise base (-e) = raise base e := by
  simp only [raise, Nat.pow_eq]
  push_cast
  exact pow_toNat_eq base hb e

theorem admits_iff (hm : 0 < b.mantissa) : b.admits d p = true ↔ b.Takes (d * 10 ^ p) := by
  -- Both sides of each comparison are scaled by the same `c`, which makes them whole.
  obtain ⟨c, hc⟩ : ∃ c : ℚ, c = raise 2 (2 - b.exponent) * raise 10 (-p) := ⟨_, rfl⟩
  have hraise (base : ℕ) (hb : 0 < base) (e : ℤ) : (0 : ℚ) < raise base e := by
    unfold raise
    exact_mod_cast Nat.pow_pos hb
  have hcpos : 0 < c := hc ▸ mul_pos (hraise 2 (by norm_num) _) (hraise 10 (by norm_num) _)
  have htwo : (2 : ℚ) ^ (b.exponent - 2) * raise 2 (2 - b.exponent) = raise 2 (b.exponent - 2) := by
    have := raise_mul 2 (by norm_num) (b.exponent - 2)
    rwa [neg_sub] at this
  have hten : (10 : ℚ) ^ p * raise 10 (-p) = raise 10 p := raise_mul 10 (by norm_num) p
  have hleft (x : ℕ) : ((scaled x b.exponent d p).1 : ℚ) = x / 4 * 2 ^ b.exponent * c := by
    have hquarter : (2 : ℚ) ^ (b.exponent - 2) = 2 ^ b.exponent / 4 := by
      rw [zpow_sub₀ (by norm_num)]
      norm_num
    rw [hquarter] at htwo
    simp only [scaled]
    push_cast
    rw [← htwo, hc]
    ring
  have hright (x : ℕ) : ((scaled x b.exponent d p).2 : ℚ) = d * 10 ^ p * c := by
    simp only [scaled]
    push_cast
    rw [← hten, hc]
    ring
  have hle (x : ℕ) : (scaled x b.exponent d p).1 ≤ (scaled x b.exponent d p).2 ↔
      (x : ℚ) / 4 * 2 ^ b.exponent ≤ d * 10 ^ p := by
    rw [← Nat.cast_le (α := ℚ), hleft, hright, mul_le_mul_iff_left₀ hcpos]
  have hge (x : ℕ) : (scaled x b.exponent d p).2 ≤ (scaled x b.exponent d p).1 ↔
      (d : ℚ) * 10 ^ p ≤ x / 4 * 2 ^ b.exponent := by
    rw [← Nat.cast_le (α := ℚ), hleft, hright, mul_le_mul_iff_left₀ hcpos]
  have hlow : (((4 * b.mantissa - if b.narrowBelow then 1 else 2 : ℕ) : ℚ)) / 4 =
      b.mantissa - if b.narrowBelow then 1 / 4 else 1 / 2 := by
    cases b.narrowBelow <;> rw [Nat.cast_sub (by simp; omega)] <;> push_cast <;> norm_num <;> ring
  have hhigh : ((4 * b.mantissa + 2 : ℕ) : ℚ) / 4 = b.mantissa + 1 / 2 := by
    push_cast
    ring
  unfold admits Takes Admitted
  dsimp only
  rw [← hlow, ← hhigh]
  split
  · rw [Bool.and_eq_true, decide_eq_true_eq, decide_eq_true_eq, hle, hge]
  · rw [Bool.and_eq_true, decide_eq_true_eq, decide_eq_true_eq, ← not_le, ← not_le, hle, hge, not_le, not_le]

/-! ### The leading digit -/

theorem digitCount_bounds {n : ℕ} (hn : 0 < n) : 10 ^ digitCount n ≤ 10 * n ∧ n < 10 ^ digitCount n := by
  have hpos : 0 < digitCount n := Nat.length_toDigits_pos
  refine ⟨?_, (Nat.length_toDigits_le_iff (by norm_num) hpos).mp le_rfl⟩
  obtain ⟨k, hk⟩ : ∃ k, digitCount n = k + 1 := ⟨_, (Nat.succ_pred hpos.ne').symm⟩
  rw [hk, pow_succ']
  refine Nat.mul_le_mul_left 10 ?_
  rcases Nat.eq_zero_or_pos k with rfl | hk0
  · exact hn
  · refine not_lt.mp fun hlt => ?_
    have := (Nat.length_toDigits_le_iff (by norm_num : 1 < 10) hk0).mpr hlt
    unfold digitCount at hk
    omega

theorem magnitude_bounds {num den : ℕ} (hnum : 0 < num) (hden : 0 < den) :
    (10 : ℚ) ^ magnitude num den ≤ num / den ∧ (num : ℚ) / den < 10 ^ (magnitude num den + 1) := by
  obtain ⟨hnlow, hnhigh⟩ := digitCount_bounds hnum
  obtain ⟨hdlow, hdhigh⟩ := digitCount_bounds hden
  have hnq : (0 : ℚ) < num := by exact_mod_cast hnum
  have hdq : (0 : ℚ) < den := by exact_mod_cast hden
  obtain ⟨g, hg⟩ : ∃ g : ℤ, (digitCount num : ℤ) - digitCount den = g := ⟨_, rfl⟩
  have hpow (e : ℤ) : (0 : ℚ) < 10 ^ e := zpow_pos (by norm_num) e
  have hsplit : (10 : ℚ) ^ digitCount num = 10 ^ digitCount den * 10 ^ g := by
    rw [← zpow_natCast, ← zpow_natCast, ← zpow_add₀ (by norm_num)]
    congr 1
    omega
  -- The numbers of digits leave two exponents; a comparison of whole numbers tells which one it is.
  have hlow : (10 : ℚ) ^ (g - 1) ≤ num / den := by
    rw [le_div_iff₀ hdq, zpow_sub_one₀ (by norm_num)]
    have h₁ : (10 : ℚ) ^ digitCount num ≤ 10 * num := by exact_mod_cast hnlow
    have h₂ : (den : ℚ) ≤ 10 ^ digitCount den := by exact_mod_cast hdhigh.le
    have h₃ : (den : ℚ) * 10 ^ g ≤ 10 ^ digitCount den * 10 ^ g := by gcongr
    linarith
  have hhigh : (num : ℚ) / den < 10 ^ (g + 1) := by
    rw [div_lt_iff₀ hdq, zpow_add_one₀ (by norm_num)]
    have h₁ : (num : ℚ) < 10 ^ digitCount num := by exact_mod_cast hnhigh
    have h₂ : (10 : ℚ) ^ digitCount den ≤ 10 * den := by exact_mod_cast hdlow
    have h₃ : (10 : ℚ) ^ digitCount den * 10 ^ g ≤ 10 * den * 10 ^ g := by gcongr
    linarith
  have hcompare : den * raise 10 g ≤ num * raise 10 (-g) ↔ (10 : ℚ) ^ g ≤ num / den := by
    have hraise : (0 : ℚ) < raise 10 (-g) := by
      unfold raise
      exact_mod_cast Nat.pow_pos (by norm_num)
    have hten : (10 : ℚ) ^ g * raise 10 (-g) = raise 10 g := raise_mul 10 (by norm_num) g
    rw [← Nat.cast_le (α := ℚ)]
    push_cast
    rw [← hten, le_div_iff₀ hdq, ← mul_assoc, mul_le_mul_iff_left₀ hraise, mul_comm]
  unfold magnitude
  simp only [hg, hcompare]
  split
  · rename_i h
    exact ⟨h, hhigh⟩
  · rename_i h
    rw [sub_add_cancel]
    exact ⟨hlow, not_le.mp h⟩

theorem fraction_pos (hm : 0 < b.mantissa) : 0 < b.fraction.1 ∧ 0 < b.fraction.2 := by
  refine ⟨Nat.mul_pos hm (Nat.pow_pos (by norm_num)), Nat.pow_pos (by norm_num)⟩

theorem fraction_eq (b : Binary) : (b.fraction.1 : ℚ) / b.fraction.2 = b.value := by
  have hraise : (0 : ℚ) < raise 2 (-b.exponent) := by
    unfold raise
    exact_mod_cast Nat.pow_pos (by norm_num)
  have htwo : (2 : ℚ) ^ b.exponent * raise 2 (-b.exponent) = raise 2 b.exponent := raise_mul 2 (by norm_num) _
  have hden : b.fraction.2 = raise 2 (-b.exponent) := rfl
  rw [hden, div_eq_iff hraise.ne']
  simp only [fraction, value]
  push_cast
  rw [← htwo]
  ring

/-! ### One grid -/

/-- The value in steps of a grid. -/
theorem scaled_fraction (b : Binary) (p : ℤ) :
    ((b.fraction.1 * raise 10 (-p) : ℕ) : ℚ) / (b.fraction.2 * raise 10 p : ℕ) = b.value / 10 ^ p := by
  have hraise (e : ℤ) : (0 : ℚ) < raise 10 e := by
    unfold raise
    exact_mod_cast Nat.pow_pos (by norm_num)
  have hten : (10 : ℚ) ^ p * raise 10 (-p) = raise 10 p := raise_mul 10 (by norm_num) p
  have := hraise (-p)
  push_cast
  rw [← hten, ← fraction_eq]
  field_simp

/-- A fraction by its whole part and by what is left. -/
theorem exists_rest (num : ℕ) {den : ℕ} (hden : 0 < den) :
    ∃ f : ℚ, (num : ℚ) / den = (num / den : ℕ) + f ∧ 0 ≤ f ∧ f < 1 ∧ (2 * (num % den) < den ↔ f < 1 / 2) ∧
      (2 * (num % den) = den ↔ f = 1 / 2) := by
  have hdq : (0 : ℚ) < den := by exact_mod_cast hden
  refine ⟨(num % den : ℕ) / den, ?_, by positivity, ?_, ?_, ?_⟩
  · have hsplit : ((den * (num / den) + num % den : ℕ) : ℚ) = num := by exact_mod_cast Nat.div_add_mod num den
    rw [← hsplit]
    push_cast
    field_simp
  · rw [div_lt_one hdq]
    exact_mod_cast Nat.mod_lt num hden
  · rw [div_lt_div_iff₀ hdq (by norm_num), ← Nat.cast_lt (α := ℚ)]
    push_cast
    constructor <;> intro h <;> linarith
  · rw [div_eq_div_iff hdq.ne' (by norm_num), ← Nat.cast_inj (R := ℚ)]
    push_cast
    constructor <;> intro h <;> linarith

/-- What is found on a grid rounds to the value and is next to it, and the nearest if all near ones round to it. -/
theorem of_onGrid (h : b.onGrid? p = some d) :
    b.admits d p = true ∧ b.value / 10 ^ p < d + 1 ∧ (d : ℚ) ≤ b.value / 10 ^ p + 1 ∧
      ((∀ n : ℕ, |(n : ℚ) - b.value / 10 ^ p| ≤ 1 / 2 → b.admits n p = true) → |(d : ℚ) - b.value / 10 ^ p| ≤ 1 / 2) := by
  have hscaled := b.scaled_fraction p
  obtain ⟨num, hnum⟩ : ∃ num, b.fraction.1 * raise 10 (-p) = num := ⟨_, rfl⟩
  obtain ⟨den, hden⟩ : ∃ den, b.fraction.2 * raise 10 p = den := ⟨_, rfl⟩
  have hdpos : 0 < den := hden ▸ Nat.mul_pos (Nat.pow_pos (by norm_num)) (Nat.pow_pos (by norm_num))
  rw [hnum, hden] at hscaled
  obtain ⟨f, hx, hlow, hhigh, hhalf, hhalf_eq⟩ := exists_rest num hdpos
  rw [hscaled] at hx
  have hnext₁ : b.value / 10 ^ p < (num / den : ℕ) + 1 ∧ ((num / den : ℕ) : ℚ) ≤ b.value / 10 ^ p + 1 := by
    constructor <;> linarith
  have hnext₂ : b.value / 10 ^ p < (num / den + 1 : ℕ) + 1 ∧ ((num / den + 1 : ℕ) : ℚ) ≤ b.value / 10 ^ p + 1 := by
    push_cast
    constructor <;> linarith
  have hbelow : |((num / den : ℕ) : ℚ) - b.value / 10 ^ p| = f := by
    rw [hx, abs_sub_comm, add_sub_cancel_left, abs_of_nonneg hlow]
  have habove : |((num / den + 1 : ℕ) : ℚ) - b.value / 10 ^ p| = 1 - f := by
    rw [hx]
    push_cast
    rw [add_sub_add_left_eq_sub, abs_of_pos (by linarith)]
  unfold onGrid? at h
  simp only [hnum, hden] at h
  -- Which of the two neighbours are read back decides; of both, the nearer one is taken.
  cases hb : b.admits (num / den) p <;> cases ha : b.admits (num / den + 1) p <;> simp only [hb, ha] at h
  · cases h
  · obtain rfl := Option.some.inj h
    refine ⟨ha, hnext₂.1, hnext₂.2, fun hnear => ?_⟩
    rw [habove]
    by_contra hfar
    have := hnear _ (hbelow.trans_le (by linarith))
    rw [hb] at this
    cases this
  · obtain rfl := Option.some.inj h
    refine ⟨hb, hnext₁.1, hnext₁.2, fun hnear => ?_⟩
    rw [hbelow]
    by_contra hfar
    have := hnear _ (habove.trans_le (by linarith))
    rw [ha] at this
    cases this
  · simp only [Bool.or_eq_true, Bool.and_eq_true, decide_eq_true_eq, hhalf, hhalf_eq] at h
    split at h
    · rename_i hle
      obtain rfl := Option.some.inj h
      refine ⟨hb, hnext₁.1, hnext₁.2, fun _ => ?_⟩
      rw [hbelow]
      rcases hle with hle | hle
      · exact hle.le
      · exact hle.1.le
    · rename_i hgt
      obtain rfl := Option.some.inj h
      refine ⟨ha, hnext₂.1, hnext₂.2, fun _ => ?_⟩
      rw [habove]
      have := not_lt.mp fun h => hgt (Or.inl h)
      linarith

/-- All values near the binary one round to it. -/
theorem IsSingle.takes_of_near (hb : b.IsSingle) {x : ℚ} (hx : |x - b.value| < b.value / 2 ^ 25) : b.Takes x := by
  have hpos := two_zpow_pos b.exponent
  have hm : (b.mantissa : ℚ) ≤ 2 ^ 24 := by exact_mod_cast hb.lt.le
  have hhigh : b.value / 2 ^ 25 ≤ 1 / 2 * 2 ^ b.exponent := by
    unfold value
    calc (b.mantissa : ℚ) * 2 ^ b.exponent / 2 ^ 25 ≤ 2 ^ 24 * 2 ^ b.exponent / 2 ^ 25 := by gcongr
      _ = 1 / 2 * 2 ^ b.exponent := by ring
  have hlow : b.value / 2 ^ 25 ≤ (if b.narrowBelow then 1 / 4 else 1 / 2 : ℚ) * 2 ^ b.exponent := by
    split
    · rename_i h
      have hmq : (b.mantissa : ℚ) = 2 ^ 23 := by exact_mod_cast (hb.narrow.mp h).1
      unfold value
      rw [hmq]
      exact le_of_eq (by ring)
    · exact hhigh
  obtain ⟨h₁, h₂⟩ := abs_lt.mp hx
  have hstrict : ((b.mantissa : ℚ) - if b.narrowBelow then 1 / 4 else 1 / 2) * 2 ^ b.exponent < x ∧
      x < (b.mantissa + 1 / 2) * 2 ^ b.exponent := by
    rw [sub_mul, add_mul]
    unfold value at h₁ h₂ hlow hhigh
    constructor <;> linarith
  unfold Takes Admitted
  dsimp only
  split
  · exact ⟨hstrict.1.le, hstrict.2.le⟩
  · exact hstrict

/-! ### The search -/

theorem firstOnGrid_eq (b : Binary) {q : ℤ} (hq : (b.onGrid? q).isSome = true) (fuel : ℕ) (hle : q ≤ p)
    (hfuel : p - q < fuel) : ∃ d r, b.firstOnGrid fuel p = ⟨d, r⟩ ∧ q ≤ r ∧ r ≤ p ∧ b.onGrid? r = some d := by
  induction fuel generalizing p with
  | zero => omega
  | succ fuel ih =>
    unfold firstOnGrid
    cases h : b.onGrid? p with
    | some d => exact ⟨d, p, rfl, hle, le_rfl, h⟩
    | none =>
      have hne : q ≠ p := fun heq => by
        rw [heq, h] at hq
        cases hq
      obtain ⟨d, r, hd, hqr, hrp, hr⟩ := ih (p := p - 1) (by omega) (by omega)
      exact ⟨d, r, hd, hqr, by omega, hr⟩

theorem trim_eq (fuel : ℕ) (x : Decimal) :
    ∃ k : ℕ, x.digits = (trim fuel x).digits * 10 ^ k ∧ (trim fuel x).exponent = x.exponent + k := by
  induction fuel generalizing x with
  | zero => exact ⟨0, by simp [trim], by simp [trim]⟩
  | succ fuel ih =>
    unfold trim
    split
    · rename_i h
      obtain ⟨k, hdigits, hexponent⟩ := ih ⟨x.digits / 10, x.exponent + 1⟩
      refine ⟨k + 1, ?_, ?_⟩
      · rw [pow_succ, ← mul_assoc, ← hdigits, Nat.div_mul_cancel (Nat.dvd_of_mod_eq_zero h.2)]
      · rw [hexponent]
        push_cast
        ring
    · exact ⟨0, by simp, by simp⟩

/-- Digits next to the value in steps of a grid are near the value itself. -/
theorem IsSingle.admits_of_near (hb : b.IsSingle) {c : ℚ} (hd : |(d : ℚ) - b.value / 10 ^ p| ≤ c)
    (hc : c * 10 ^ p < b.value / 2 ^ 25) : b.admits d p = true := by
  have hpow : (0 : ℚ) < 10 ^ p := zpow_pos (by norm_num) p
  refine (admits_iff hb.pos).mpr (hb.takes_of_near (lt_of_le_of_lt ?_ hc))
  calc |(d : ℚ) * 10 ^ p - b.value| = |(d : ℚ) - b.value / 10 ^ p| * 10 ^ p := by
        rw [← abs_of_pos hpow, ← abs_mul, abs_of_pos hpow, sub_mul, div_mul_cancel₀ _ hpow.ne']
    _ ≤ c * 10 ^ p := by gcongr

/-- Nine digits suffice. -/
theorem IsSingle.isSome_onGrid (hb : b.IsSingle) (hp : 10 ^ 8 * (10 : ℚ) ^ p ≤ b.value) :
    (b.onGrid? p).isSome = true := by
  have hpow : (0 : ℚ) < 10 ^ p := zpow_pos (by norm_num) p
  have hfloor : |((b.fraction.1 * raise 10 (-p) / (b.fraction.2 * raise 10 p) : ℕ) : ℚ) - b.value / 10 ^ p| ≤ 1 := by
    rw [← b.scaled_fraction p]
    have hle := Nat.floor_le (show (0 : ℚ) ≤ ((b.fraction.1 * raise 10 (-p) : ℕ) : ℚ) / (b.fraction.2 * raise 10 p : ℕ) by
      positivity)
    have hlt := Nat.lt_floor_add_one (((b.fraction.1 * raise 10 (-p) : ℕ) : ℚ) / (b.fraction.2 * raise 10 p : ℕ))
    rw [Nat.floor_div_eq_div] at hle hlt
    exact abs_le.mpr ⟨by linarith, by linarith⟩
  have hbelow := hb.admits_of_near hfloor <| by
    rw [lt_div_iff₀ (by norm_num)]
    calc 1 * (10 : ℚ) ^ p * 2 ^ 25 = 2 ^ 25 * 10 ^ p := by ring
      _ < 10 ^ 8 * 10 ^ p := by gcongr; norm_num
      _ ≤ b.value := hp
  unfold onGrid?
  simp only [hbelow]
  split
  · rfl
  · rfl
  · rename_i h _
    cases h
  · split <;> rfl

theorem IsSingle.le_value (hb : b.IsSingle) : (10 : ℚ) ^ (-45 : ℤ) ≤ b.value := by
  have hone : (1 : ℚ) ≤ b.mantissa := by exact_mod_cast hb.pos
  calc (10 : ℚ) ^ (-45 : ℤ) ≤ 1 * 2 ^ (-149 : ℤ) := by norm_num
    _ ≤ b.mantissa * 2 ^ b.exponent := by
      gcongr
      · norm_num
      · exact hb.low

/-- The decimal that a value is written with comes from a grid on which the value has one to nine digits. -/
theorem IsSingle.exists_onGrid (hb : b.IsSingle) :
    ∃ d p, b.onGrid? p = some d ∧ b.shortest = trim 17 ⟨d, p⟩ ∧ -53 ≤ p ∧ 1 ≤ b.value / 10 ^ p ∧
      b.value / 10 ^ p < 10 ^ 9 := by
  obtain ⟨hnum, hden⟩ := fraction_pos hb.pos
  obtain ⟨hmag, hmag'⟩ := magnitude_bounds hnum hden
  rw [fraction_eq] at hmag hmag'
  obtain ⟨mag, hm⟩ : ∃ mag, magnitude b.fraction.1 b.fraction.2 = mag := ⟨_, rfl⟩
  rw [hm] at hmag hmag'
  have hmaglow : -45 ≤ mag := by
    have := (zpow_lt_zpow_iff_right₀ (by norm_num : (1 : ℚ) < 10)).mp (hb.le_value.trans_lt hmag')
    omega
  have hsome : (b.onGrid? (mag - 8)).isSome = true := by
    refine hb.isSome_onGrid (le_trans (le_of_eq ?_) hmag)
    rw [zpow_sub₀ (by norm_num)]
    norm_num
    ring
  obtain ⟨d, p, hfirst, hlow, hhigh, hgrid⟩ := firstOnGrid_eq b hsome 17 (p := mag) (by omega) (by omega)
  have hpow : (0 : ℚ) < 10 ^ p := zpow_pos (by norm_num) p
  refine ⟨d, p, hgrid, ?_, by omega, ?_, ?_⟩
  · unfold shortest
    rw [if_neg hb.pos.ne', hm, hfirst]
  · rw [le_div_iff₀ hpow, one_mul]
    exact (zpow_le_zpow_right₀ (by norm_num) hhigh).trans hmag
  · rw [div_lt_iff₀ hpow]
    refine hmag'.trans_le ?_
    calc (10 : ℚ) ^ (mag + 1) ≤ 10 ^ (9 + p) := zpow_le_zpow_right₀ (by norm_num) (by omega)
      _ = 10 ^ 9 * 10 ^ p := by rw [zpow_add₀ (by norm_num)]; norm_num

theorem IsSingle.exponent_lt (hb : b.IsSingle) {D : ℕ} {q : ℤ} (hD : 0 < D) (h : b.Takes (D * 10 ^ q)) : q < 39 := by
  have hm : (b.mantissa : ℚ) + 1 / 2 ≤ 2 ^ 24 := by
    have : (b.mantissa : ℚ) + 1 ≤ 2 ^ 24 := by exact_mod_cast hb.lt
    linarith
  have hlt : (10 : ℚ) ^ q < 10 ^ (39 : ℤ) := by
    calc (10 : ℚ) ^ q ≤ D * 10 ^ q :=
          le_mul_of_one_le_left (zpow_pos (by norm_num) q).le (by exact_mod_cast hD)
      _ ≤ (b.mantissa + 1 / 2) * 2 ^ b.exponent := h.bounds.2
      _ ≤ 2 ^ 24 * 2 ^ (104 : ℤ) := by
        gcongr
        · norm_num
        · exact hb.high
      _ < 10 ^ (39 : ℤ) := by norm_num
  exact (zpow_lt_zpow_iff_right₀ (by norm_num : (1 : ℚ) < 10)).mp hlt

/-- With many digits, the interval of the value is wider than a step of the grid. -/
theorem IsSingle.takes_of_many (hb : b.IsSingle) (h : b.onGrid? p = some d) (hd : 17000000 < d) {w : ℚ}
    (hw : |w - d * 10 ^ p| ≤ 301 / 100 / 2 ^ 53 * (d * 10 ^ p)) : b.Takes w := by
  obtain ⟨-, -, hnext, hnearest⟩ := of_onGrid h
  have hpow : (0 : ℚ) < 10 ^ p := zpow_pos (by norm_num) p
  have hdq : (17000001 : ℚ) ≤ d := by exact_mod_cast hd
  obtain ⟨x, hx⟩ : ∃ x, b.value / 10 ^ p = x := ⟨_, rfl⟩
  have hxvalue : b.value = x * 10 ^ p := by rw [← hx, div_mul_cancel₀ _ hpow.ne']
  rw [hx] at hnext hnearest
  have hnear := hnearest fun n hn => hb.admits_of_near (hx ▸ hn) <| by
    rw [hxvalue, mul_div_right_comm]
    exact mul_lt_mul_of_pos_right (by linarith) hpow
  refine hb.takes_of_near ?_
  have hdistance : |(d : ℚ) * 10 ^ p - b.value| ≤ 1 / 2 * 10 ^ p := by
    rw [hxvalue, ← sub_mul, abs_mul, abs_of_pos hpow]
    gcongr
  calc |w - b.value| ≤ |w - d * 10 ^ p| + |d * 10 ^ p - b.value| := abs_sub_le _ _ _
    _ ≤ 301 / 100 / 2 ^ 53 * (d * 10 ^ p) + 1 / 2 * 10 ^ p := add_le_add hw hdistance
    _ = (301 / 100 / 2 ^ 53 * d + 1 / 2) * 10 ^ p := by ring
    _ < x / 2 ^ 25 * 10 ^ p := by
      gcongr
      linarith
    _ = b.value / 2 ^ 25 := by rw [hxvalue]; ring

/-- What is known of the decimal that a value is written with: if it has many digits, all values near it round to
    the same. -/
theorem IsSingle.shortest_spec (hb : b.IsSingle) :
    0 < b.shortest.digits ∧ b.shortest.digits ≤ 2 * 10 ^ 9 ∧ -53 ≤ b.shortest.exponent ∧ b.shortest.exponent < 39 ∧
      b.Takes (b.shortest.digits * 10 ^ b.shortest.exponent) ∧
      (b.shortest.digits ≤ 17000000 ∨ ∀ w : ℚ,
        |w - b.shortest.digits * 10 ^ b.shortest.exponent| ≤
          301 / 100 / 2 ^ 53 * (b.shortest.digits * 10 ^ b.shortest.exponent) → b.Takes w) := by
  obtain ⟨d, p, hgrid, hshortest, hlow, hxone, hxtop⟩ := hb.exists_onGrid
  obtain ⟨hadmits, hnext₁, hnext₂, -⟩ := of_onGrid hgrid
  obtain ⟨k, hdigits, hexponent⟩ := trim_eq 17 ⟨d, p⟩
  rw [← hshortest] at hdigits hexponent
  generalize b.shortest = f at hdigits hexponent ⊢
  obtain ⟨D, q⟩ := f
  dsimp only at hdigits hexponent ⊢
  have hvalue : (D : ℚ) * 10 ^ q = d * 10 ^ p := by
    rw [hexponent, hdigits, zpow_add₀ (by norm_num), zpow_natCast]
    push_cast
    ring
  have hdpos : 0 < d := by
    have : (0 : ℚ) < d := by linarith
    exact_mod_cast this
  have hDpos : 0 < D := Nat.pos_of_ne_zero fun h => by
    rw [hdigits, h, Nat.zero_mul] at hdpos
    exact lt_irrefl 0 hdpos
  have hDle : D ≤ d := hdigits ▸ Nat.le_mul_of_pos_right D (by positivity)
  have hDtop : D ≤ 2 * 10 ^ 9 := hDle.trans <| by
    have : (d : ℚ) ≤ 2 * 10 ^ 9 := by linarith
    exact_mod_cast this
  have htakes : b.Takes (D * 10 ^ q) := hvalue ▸ (admits_iff hb.pos).mp hadmits
  refine ⟨hDpos, hDtop, by omega, hb.exponent_lt hDpos htakes, htakes, ?_⟩
  rcases le_or_gt d 17000000 with hd | hd
  · exact Or.inl (hDle.trans hd)
  · refine Or.inr fun w hw => hb.takes_of_many hgrid hd ?_
    rwa [hvalue] at hw

end Binary

end Workboard
