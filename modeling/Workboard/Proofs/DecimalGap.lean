import Workboard.Proofs.Rounding

/-! No short decimal is close to a binary number of few bits without being that number.

The two differ by an integer combination of the errors of two neighbouring fractions, one on each side of the ratio
of the powers (`Neighbours`), and within the bounds on digits and bits the combination cannot cancel. The fractions
come from the division algorithm, and a check of each pair of exponents shows that their errors are large enough. -/

namespace Workboard

/-- The most digits of a decimal for which the check is made, as the greatest number they write. -/
def mostDigits : ℕ := 17000000

/-- The greatest number of twenty-five bits. -/
def mostBits : ℕ := 33554431

/-- Two fractions `n / d` around a ratio. -/
structure Neighbours where
  d₁ : ℕ
  n₁ : ℕ
  d₂ : ℕ
  n₂ : ℕ

namespace Neighbours

/-- How often a step may be taken. -/
def room (k bound x step : ℕ) : ℕ := if step = 0 then k else min k ((bound - x) / step)

/-- The division algorithm on the errors of the two fractions, within the bounds. -/
def approach : ℕ → (d₁ n₁ e₁ d₂ n₂ e₂ : ℕ) → Neighbours
  | 0, d₁, n₁, _, d₂, n₂, _ => ⟨d₁, n₁, d₂, n₂⟩
  | fuel + 1, d₁, n₁, e₁, d₂, n₂, e₂ =>
    if e₁ ≤ e₂ then
      let k := room (room (e₂ / e₁) mostDigits d₂ d₁) mostBits n₂ n₁
      if k = 0 then ⟨d₁, n₁, d₂, n₂⟩
      else approach fuel d₁ n₁ e₁ (d₂ + k * d₁) (n₂ + k * n₁) (e₂ - k * e₁)
    else
      let k := room (room (e₁ / e₂) mostDigits d₁ d₂) mostBits n₁ n₂
      if k = 0 then ⟨d₁, n₁, d₂, n₂⟩
      else approach fuel (d₁ + k * d₂) (n₁ + k * n₂) (e₁ - k * e₂) d₂ n₂ e₂

/-- The neighbours of `a / b`. -/
def of (a b : ℕ) : Neighbours := approach 64 0 1 b 1 0 a

/-- An error is none, or large for the fraction; one fraction may be spared if no multiple of it is in bounds. -/
def large (b : ℕ) (spare : ℕ × ℕ) (d n e : ℕ) : Bool :=
  e = 0 || 31 * (n * b) ≤ 10 * 2 ^ 53 * e || (spare = (d, n) && mostBits < 2 * n)

/-- The fractions are neighbours around `a / b`, nothing between them is in bounds, and their errors are large. -/
def check (a b : ℕ) (spare : ℕ × ℕ) (f : Neighbours) : Bool :=
  f.d₁ * f.n₂ + 1 = f.d₂ * f.n₁ && f.d₁ ≤ mostDigits && f.d₂ ≤ mostDigits &&
  f.d₁ * a ≤ f.n₁ * b && f.n₂ * b ≤ f.d₂ * a &&
  (mostDigits < f.d₁ + f.d₂ || mostBits < f.n₁ + f.n₂ || f.n₁ * b = f.d₁ * a || f.d₂ * a = f.n₂ * b) &&
  large b spare f.d₁ f.n₁ (f.n₁ * b - f.d₁ * a) && large b spare f.d₂ f.n₂ (f.d₂ * a - f.n₂ * b)

/-- What a multiple of a fraction is off by. -/
theorem error_multiple {b d n e k D N : ℕ} {spare : ℕ × ℕ} (h : large b spare d n e = true) (hk : 0 < k)
    (hN : N ≤ mostBits) (hDk : D = k * d) (hNk : N = k * n) :
    k * e = 0 ∨ spare = (D, N) ∨ 31 * (N * b) ≤ 10 * 2 ^ 53 * (k * e) := by
  simp only [large, Bool.or_eq_true, Bool.and_eq_true, decide_eq_true_eq] at h
  rcases h with (h | h) | ⟨h, hn⟩
  · exact Or.inl (by rw [h, Nat.mul_zero])
  · refine Or.inr (Or.inr ?_)
    calc 31 * (N * b) = k * (31 * (n * b)) := by rw [hNk]; ring
      _ ≤ k * (10 * 2 ^ 53 * e) := Nat.mul_le_mul_left k h
      _ = 10 * 2 ^ 53 * (k * e) := by ring
  · have hone : k = 1 := by
      by_contra hne
      have : 2 * n ≤ N := hNk ▸ Nat.mul_le_mul_right n (by omega)
      omega
    rw [hone, one_mul] at hDk hNk
    exact Or.inr (Or.inl (by rw [h, hDk, hNk]))

/-- Errors do not cancel when the coordinates have different signs or one of them is none. -/
theorem add_le_abs {x y e₁ e₂ : ℤ} (h₁ : 0 ≤ e₁) (h₂ : 0 ≤ e₂) (hx : x ≠ 0) (hy : y ≠ 0)
    (h : x < 0 ∧ 0 < y ∨ 0 < x ∧ y < 0 ∨ e₁ = 0 ∨ e₂ = 0) : e₁ + e₂ ≤ |y * e₂ - x * e₁| := by
  have hmul {k e : ℤ} (he : 0 ≤ e) (hk : k ≠ 0) : e ≤ |k * e| := by
    rw [abs_mul, abs_of_nonneg he]
    exact le_mul_of_one_le_left he (Int.one_le_abs hk)
  rcases h with ⟨hx, hy⟩ | ⟨hx, hy⟩ | rfl | rfl
  · have hxe : e₁ ≤ -x * e₁ := le_mul_of_one_le_left h₁ (by omega)
    have hye : e₂ ≤ y * e₂ := le_mul_of_one_le_left h₂ (by omega)
    exact le_trans (by linarith) (le_abs_self _)
  · have hxe : e₁ ≤ x * e₁ := le_mul_of_one_le_left h₁ (by omega)
    have hye : e₂ ≤ -y * e₂ := le_mul_of_one_le_left h₂ (by omega)
    exact le_trans (by linarith) (neg_le_abs _)
  · rw [mul_zero, sub_zero, zero_add]
    exact hmul h₂ hy
  · rw [mul_zero, zero_sub, abs_neg, add_zero]
    exact hmul h₁ hx

/-- Together the errors of neighbours are large. -/
theorem le_of_add_le {b d₁ d₂ e₁ e₂ N : ℕ} {z : ℤ} (hd₁ : d₁ ≤ mostDigits) (hd₂ : d₂ ≤ mostDigits) (hN : N ≤ mostBits)
    (hb : d₁ * e₂ + d₂ * e₁ = b) (hz : (e₁ : ℤ) + e₂ ≤ z) : 31 * ((N : ℤ) * b) ≤ 10 * 2 ^ 53 * z := by
  have hnat : 31 * (N * b) ≤ 10 * 2 ^ 53 * (e₁ + e₂) := by
    calc 31 * (N * b) ≤ 31 * (mostBits * (mostDigits * e₂ + mostDigits * e₁)) := by rw [← hb]; gcongr
      _ = 31 * (mostBits * mostDigits) * (e₁ + e₂) := by ring
      _ ≤ 10 * 2 ^ 53 * (e₁ + e₂) := Nat.mul_le_mul_right _ (by decide)
  calc 31 * ((N : ℤ) * b) ≤ 10 * 2 ^ 53 * ((e₁ : ℤ) + e₂) := by exact_mod_cast hnat
    _ ≤ 10 * 2 ^ 53 * z := by gcongr

/-- Two fractions of determinant one around `a / b`, with what each of them is off by. -/
structure Around (a b d₁ n₁ e₁ d₂ n₂ e₂ : ℕ) : Prop where
  det : d₁ * n₂ + 1 = d₂ * n₁
  above : n₁ * b = d₁ * a + e₁
  below : d₂ * a = n₂ * b + e₂

section
variable {a b d₁ n₁ e₁ d₂ n₂ e₂ D N : ℕ} {spare : ℕ × ℕ}

/-- The errors make up the denominator. -/
theorem Around.weighted (h : Around a b d₁ n₁ e₁ d₂ n₂ e₂) : d₁ * e₂ + d₂ * e₁ = b := by
  have hdet : (d₁ : ℤ) * n₂ + 1 = d₂ * n₁ := by exact_mod_cast h.det
  have habove : (n₁ : ℤ) * b = d₁ * a + e₁ := by exact_mod_cast h.above
  have hbelow : (d₂ : ℤ) * a = n₂ * b + e₂ := by exact_mod_cast h.below
  have hweighted : (d₁ : ℤ) * e₂ + d₂ * e₁ = b := by
    linear_combination (-(b : ℤ)) * hdet - (d₁ : ℤ) * hbelow - (d₂ : ℤ) * habove
  exact_mod_cast hweighted

/-- A pair is an integer combination of the two fractions, and is off by the same combination of their errors. -/
theorem Around.exists_coordinates (h : Around a b d₁ n₁ e₁ d₂ n₂ e₂) (D N : ℕ) : ∃ x y : ℤ,
    (D : ℤ) = x * d₁ + y * d₂ ∧ (N : ℤ) = x * n₁ + y * n₂ ∧ (D : ℤ) * a - N * b = y * e₂ - x * e₁ := by
  have hdet : (d₁ : ℤ) * n₂ + 1 = d₂ * n₁ := by exact_mod_cast h.det
  have habove : (n₁ : ℤ) * b = d₁ * a + e₁ := by exact_mod_cast h.above
  have hbelow : (d₂ : ℤ) * a = n₂ * b + e₂ := by exact_mod_cast h.below
  have hD : (D : ℤ) = (d₂ * N - n₂ * D) * d₁ + (n₁ * D - d₁ * N) * d₂ := by linear_combination (D : ℤ) * hdet
  have hN : (N : ℤ) = (d₂ * N - n₂ * D) * n₁ + (n₁ * D - d₁ * N) * n₂ := by linear_combination (N : ℤ) * hdet
  refine ⟨d₂ * N - n₂ * D, n₁ * D - d₁ * N, hD, hN, ?_⟩
  linear_combination (a : ℤ) * hD - (b : ℤ) * hN + (n₁ * D - d₁ * N : ℤ) * hbelow - (d₂ * N - n₂ * D : ℤ) * habove

/-- A multiple of one fraction is off by nothing, is spared, or is far off. -/
theorem apart_of_multiple {d n e k : ℕ} (hlarge : large b spare d n e = true) (hk : 0 < k) (hN : N ≤ mostBits)
    (hDk : (D : ℤ) = k * d) (hNk : (N : ℤ) = k * n) (habs : |(D : ℤ) * a - N * b| = k * e) :
    D * a = N * b ∨ spare = (D, N) ∨ 31 * ((N : ℤ) * b) ≤ 10 * 2 ^ 53 * |(D : ℤ) * a - N * b| := by
  rcases error_multiple hlarge hk hN (by exact_mod_cast hDk) (by exact_mod_cast hNk) with h | h | h
  · left
    have hzero : (D : ℤ) * a - N * b = 0 := by rw [← abs_eq_zero, habs]; exact_mod_cast h
    exact_mod_cast sub_eq_zero.mp hzero
  · exact Or.inr (Or.inl h)
  · right; right
    rw [habs]
    exact_mod_cast h

/-- Within the bounds a multiple of `a` is one of `b`, or they are far apart. -/
theorem apart_of_check {f : Neighbours} (h : f.check a b spare = true) (hD : 0 < D)
    (hDle : D ≤ mostDigits) (hN : N ≤ mostBits) :
    D * a = N * b ∨ spare = (D, N) ∨ 31 * ((N : ℤ) * b) ≤ 10 * 2 ^ 53 * |(D : ℤ) * a - N * b| := by
  obtain ⟨d₁, n₁, d₂, n₂⟩ := f
  simp only [check, Bool.and_eq_true, Bool.or_eq_true, decide_eq_true_eq] at h
  obtain ⟨⟨⟨⟨⟨⟨⟨hdet, hd₁⟩, hd₂⟩, he₁⟩, he₂⟩, hbetween⟩, hlarge₁⟩, hlarge₂⟩ := h
  obtain ⟨e₁, he₁⟩ := Nat.exists_eq_add_of_le he₁
  obtain ⟨e₂, he₂⟩ := Nat.exists_eq_add_of_le he₂
  rw [he₁, Nat.add_sub_cancel_left] at hlarge₁
  rw [he₂, Nat.add_sub_cancel_left] at hlarge₂
  have haround : Around a b d₁ n₁ e₁ d₂ n₂ e₂ := ⟨hdet, he₁, he₂⟩
  obtain ⟨x, y, hDxy, hNxy, herror⟩ := haround.exists_coordinates D N
  have hDpos : (0 : ℤ) < D := by exact_mod_cast hD
  have hsum (hx : x ≠ 0) (hy : y ≠ 0) (h : x < 0 ∧ 0 < y ∨ 0 < x ∧ y < 0 ∨ (e₁ : ℤ) = 0 ∨ (e₂ : ℤ) = 0) :
      31 * ((N : ℤ) * b) ≤ 10 * 2 ^ 53 * |(D : ℤ) * a - N * b| := by
    rw [herror]
    exact le_of_add_le hd₁ hd₂ hN haround.weighted (add_le_abs (by positivity) (by positivity) hx hy h)
  have hnonpos (hx : x ≤ 0) (hy : y ≤ 0) : (D : ℤ) ≤ 0 := by
    rw [hDxy]
    exact add_nonpos (mul_nonpos_of_nonpos_of_nonneg hx (by positivity))
      (mul_nonpos_of_nonpos_of_nonneg hy (by positivity))
  rcases lt_trichotomy x 0 with hx0 | hx0 | hx0 <;> rcases lt_trichotomy y 0 with hy0 | hy0 | hy0
  · exact absurd hDpos (not_lt.mpr (hnonpos hx0.le hy0.le))
  · exact absurd hDpos (not_lt.mpr (hnonpos hx0.le hy0.le))
  · exact Or.inr (Or.inr (hsum hx0.ne hy0.ne' (Or.inl ⟨hx0, hy0⟩)))
  · exact absurd hDpos (not_lt.mpr (hnonpos hx0.le hy0.le))
  · exact absurd hDpos (not_lt.mpr (hnonpos hx0.le hy0.le))
  · obtain ⟨k, hk⟩ := Int.eq_ofNat_of_zero_le hy0.le
    rw [hx0, hk, zero_mul, zero_add] at hDxy hNxy
    refine apart_of_multiple hlarge₂ (by omega) hN hDxy hNxy ?_
    rw [herror, hx0, hk, zero_mul, sub_zero]
    exact abs_of_nonneg (by positivity)
  · exact Or.inr (Or.inr (hsum hx0.ne' hy0.ne (Or.inr (Or.inl ⟨hx0, hy0⟩))))
  · obtain ⟨k, hk⟩ := Int.eq_ofNat_of_zero_le hx0.le
    rw [hy0, hk, zero_mul, add_zero] at hDxy hNxy
    refine apart_of_multiple hlarge₁ (by omega) hN hDxy hNxy ?_
    rw [herror, hy0, hk, zero_mul, zero_sub, abs_neg]
    exact abs_of_nonneg (by positivity)
  · -- Between the fractions, so one of them has no error, or the pair is out of bounds.
    refine Or.inr (Or.inr (hsum hx0.ne' hy0.ne' (Or.inr (Or.inr ?_))))
    have hDge : (d₁ : ℤ) + d₂ ≤ D := by
      rw [hDxy]
      exact add_le_add (le_mul_of_one_le_left (by positivity) hx0) (le_mul_of_one_le_left (by positivity) hy0)
    have hNge : (n₁ : ℤ) + n₂ ≤ N := by
      rw [hNxy]
      exact add_le_add (le_mul_of_one_le_left (by positivity) hx0) (le_mul_of_one_le_left (by positivity) hy0)
    rcases hbetween with ((h | h) | h) | h <;> omega

end

/-! ### Powers of ten and of two -/

/-- The pair of decimal exponent and binary exponent as a ratio of whole numbers. -/
def numerator (p q : ℤ) : ℕ := 10 ^ p.toNat * 2 ^ (-q).toNat

def denominator (p q : ℤ) : ℕ := 10 ^ (-p).toNat * 2 ^ q.toNat

/-- The only pair that is close, with both of its binary exponents. -/
def spare (p q : ℤ) : ℕ × ℕ :=
  if p = -32 ∧ q = -108 then (7038531, 22841339)
  else if p = -32 ∧ q = -107 then (14077062, 22841339)
  else (0, 0)

/-- The least number of bits that counts at a binary exponent. Only the least exponent has numbers of fewer bits. -/
def leastBits (q : ℤ) : ℕ := if q = -150 then 1 else 2 ^ 24

/-- A ratio so large or small that no pair is near it. -/
def far (a b : ℕ) (q : ℤ) : Bool := 2 * (mostDigits * a) ≤ leastBits q * b || 2 * (mostBits * b) ≤ a

/-- Every pair of exponents is checked. -/
theorem checked : (List.range 92).all (fun i => (List.range 254).all fun j =>
    let p : ℤ := i - 53
    let q : ℤ := j - 150
    let a := numerator p q
    let b := denominator p q
    far a b q || check a b (spare p q) (of a b)) = true := by decide +kernel

theorem apart_of_far {a b D N : ℕ} {q : ℤ} (h : far a b q = true) (hD : 0 < D) (hDle : D ≤ mostDigits)
    (hNge : leastBits q ≤ N) (hN : N ≤ mostBits) : 31 * ((N : ℤ) * b) ≤ 10 * 2 ^ 53 * |(D : ℤ) * a - N * b| := by
  simp only [far, Bool.or_eq_true, decide_eq_true_eq] at h
  rcases h with h | h
  · have hle : 2 * (D * a) ≤ N * b := by
      calc 2 * (D * a) ≤ 2 * (mostDigits * a) := by gcongr
        _ ≤ leastBits q * b := h
        _ ≤ N * b := by gcongr
    have habs : (N : ℤ) * b ≤ 2 * |(D : ℤ) * a - N * b| := by
      have hle : 2 * ((D : ℤ) * a) ≤ N * b := by exact_mod_cast hle
      have := neg_le_abs ((D : ℤ) * a - N * b)
      linarith
    have := abs_nonneg ((D : ℤ) * a - N * b)
    linarith
  · have hle : 2 * (N * b) ≤ D * a := by
      calc 2 * (N * b) ≤ 2 * (mostBits * b) := by gcongr
        _ ≤ a := h
        _ ≤ D * a := Nat.le_mul_of_pos_left a hD
    have habs : (N : ℤ) * b ≤ |(D : ℤ) * a - N * b| := by
      have hle : 2 * ((N : ℤ) * b) ≤ D * a := by exact_mod_cast hle
      have := le_abs_self ((D : ℤ) * a - N * b)
      linarith
    have := abs_nonneg ((D : ℤ) * a - N * b)
    linarith

end Neighbours

open Neighbours

/-- A short decimal that is a binary number of few bits has few digits beside the point. -/
theorem natAbs_le_of_eq {D N : ℕ} {p q : ℤ} (h : D * numerator p q = N * denominator p q) (hD : 0 < D)
    (hDle : D ≤ mostDigits) (hNpos : 0 < N) (hN : N ≤ mostBits) : p.natAbs ≤ 22 := by
  have hfive {k j : ℕ} {x y z : ℕ} (hx : 0 < x) (hxtop : x < 5 ^ 23) (h : x * 2 ^ j = y * (10 ^ k * z)) : k ≤ 22 := by
    have hdvd : 5 ^ k ∣ x * 2 ^ j := by
      rw [h, show (10 : ℕ) = 5 * 2 by rfl, mul_pow]
      exact ⟨y * (2 ^ k * z), by ring⟩
    have hx' : 5 ^ k ∣ x := (Nat.Coprime.pow k j (by decide)).dvd_of_dvd_mul_right hdvd
    have : 5 ^ k < 5 ^ 23 := (Nat.le_of_dvd hx hx').trans_lt hxtop
    have := (Nat.pow_lt_pow_iff_right (by norm_num)).mp this
    omega
  have hDtop : D < 5 ^ 23 := hDle.trans_lt (by decide)
  have hNtop : N < 5 ^ 23 := hN.trans_lt (by decide)
  unfold numerator denominator at h
  rcases lt_or_ge p 0 with hp | hp
  · rw [show p.toNat = 0 by omega, pow_zero, one_mul] at h
    have := hfive hD hDtop h
    omega
  · rw [show (-p).toNat = 0 by omega, pow_zero, one_mul] at h
    have := hfive hNpos hNtop h.symm
    omega

/-- A short decimal is a binary number of few bits, or far from it. -/
theorem eq_or_far {D N : ℕ} {p q : ℤ} (hD : 0 < D) (hDle : D ≤ mostDigits) (hNge : leastBits q ≤ N) (hN : N ≤ mostBits)
    (hp : -53 ≤ p ∧ p < 39) (hq : -150 ≤ q ∧ q < 104) :
    (D : ℚ) * 10 ^ p = N * 2 ^ q ∧ p.natAbs ≤ 22 ∨ spare p q = (D, N) ∨
      31 / 10 / 2 ^ 53 * (N * 2 ^ q : ℚ) ≤ |(D : ℚ) * 10 ^ p - N * 2 ^ q| := by
  obtain ⟨i, hi⟩ := Int.eq_ofNat_of_zero_le (show 0 ≤ p + 53 by omega)
  obtain ⟨j, hj⟩ := Int.eq_ofNat_of_zero_le (show 0 ≤ q + 150 by omega)
  have hcheck := List.all_eq_true.mp (List.all_eq_true.mp checked i (List.mem_range.mpr (by omega))) j
    (List.mem_range.mpr (by omega))
  rw [show (i : ℤ) - 53 = p by omega, show (j : ℤ) - 150 = q by omega] at hcheck
  obtain ⟨c, hc⟩ : ∃ c : ℚ, c = 10 ^ (-p).toNat * 2 ^ (-q).toNat := ⟨_, rfl⟩
  have hcpos : 0 < c := by rw [hc]; positivity
  have hnumerator : (D : ℚ) * 10 ^ p * c = (D * numerator p q : ℕ) := by
    unfold numerator
    push_cast
    rw [hc, ← pow_toNat_eq 10 (by norm_num) p]
    ring
  have hdenominator : (N : ℚ) * 2 ^ q * c = (N * denominator p q : ℕ) := by
    unfold denominator
    push_cast
    rw [hc, ← pow_toNat_eq 2 (by norm_num) q]
    ring
  have hmain : D * numerator p q = N * denominator p q ∨ spare p q = (D, N) ∨
      31 * ((N : ℤ) * denominator p q) ≤ 10 * 2 ^ 53 * |(D : ℤ) * numerator p q - N * denominator p q| := by
    rcases Bool.or_eq_true_iff.mp hcheck with h | h
    · exact Or.inr (Or.inr (apart_of_far h hD hDle hNge hN))
    · exact apart_of_check h hD hDle hN
  refine hmain.imp ?_ (Or.imp_right ?_)
  · intro h
    have hNpos : 0 < N := lt_of_lt_of_le (by unfold leastBits; split <;> norm_num) hNge
    refine ⟨mul_right_cancel₀ hcpos.ne' ?_, natAbs_le_of_eq h hD hDle hNpos hN⟩
    rw [hnumerator, hdenominator, h]
  · intro h
    have hq : 31 * ((N * denominator p q : ℕ) : ℚ) ≤
        10 * 2 ^ 53 * |((D * numerator p q : ℕ) : ℚ) - (N * denominator p q : ℕ)| := by exact_mod_cast h
    rw [← hnumerator, ← hdenominator, ← sub_mul, abs_mul, abs_of_pos hcpos] at hq
    refine le_of_mul_le_mul_right ?_ hcpos
    linarith

end Workboard
