import DialogChart.Proofs.Number.Rounding

/-!
# The shortest digits read back

The digits that are written for a number lie in the interval of the reals that round to it, so they
are rounded to the number again.  For this the search has to find a decimal at all, and not only run
out of grids.  A grid whose step is less than half a unit has a point in the interval
(`Interval.nearest?_ne_none`), and the last grid of the search is as fine as that, because ten to the
power of `30103 / 100000 · p` is not much more than two to the power of `p` for the exponents that
occur (`ten_zpow_le`).

The main results are `Format.exists_shortest` and, for reading, `Decimal.toDouble_of_contains`.
-/

namespace DialogChart.Number

/-! ### Decimal fractions -/

/-- A decimal fraction has a positive denominator. -/
lemma scaleTen_den_pos (num : ℕ) (e : ℤ) : 0 < (scaleTen num e).2 := by
  cases e with
  | ofNat k => exact Nat.one_pos
  | negSucc k => exact Nat.pow_pos (by decide)

/-- A decimal fraction as a number. -/
lemma scaleTen_eq (num : ℕ) (e : ℤ) :
    ((scaleTen num e).1 : ℚ) / (scaleTen num e).2 = num * 10 ^ e := by
  cases e with
  | ofNat k =>
    change ((num * Nat.pow 10 k : ℕ) : ℚ) / (1 : ℕ) = num * 10 ^ (k : ℤ)
    rw [Nat.pow_eq, zpow_natCast]
    push_cast
    rw [div_one]
  | negSucc k =>
    change (num : ℚ) / ((Nat.pow 10 (k + 1) : ℕ) : ℚ) = num * 10 ^ (Int.negSucc k)
    rw [Nat.pow_eq, zpow_negSucc, div_eq_mul_inv]
    push_cast
    rfl

namespace Interval

variable {i : Interval} {num den c : ℕ} {q j : ℤ}

/-- Whether a multiple of a grid lies in the interval. -/
lemma holds_iff (hden : 0 < den) (hgrid : (num : ℚ) / den = 2 ^ (q - 2) * 10 ^ (-j)) :
    i.holds num den c = true ↔ i.Contains q (c * 10 ^ j) := by
  have hden' : (0 : ℚ) < den := by exact_mod_cast hden
  have hten : (0 : ℚ) < 10 ^ j := by positivity
  have hstep : ∀ a : ℕ, (a : ℚ) * num / den = a * 2 ^ (q - 2) / 10 ^ j := fun a => by
    rw [mul_div_assoc, hgrid, zpow_neg, div_eq_mul_inv, mul_assoc]
  have hle : ∀ a : ℕ, a * num ≤ c * den ↔ (a : ℚ) * 2 ^ (q - 2) ≤ c * 10 ^ j := fun a => by
    rw [← Nat.cast_le (α := ℚ), Nat.cast_mul, Nat.cast_mul, ← div_le_iff₀ hden', hstep,
      div_le_iff₀ hten]
  have hge : ∀ a : ℕ, c * den ≤ a * num ↔ (c : ℚ) * 10 ^ j ≤ a * 2 ^ (q - 2) := fun a => by
    rw [← Nat.cast_le (α := ℚ), Nat.cast_mul, Nat.cast_mul, ← le_div_iff₀ hden', hstep,
      le_div_iff₀ hten]
  unfold holds Contains
  split
  · rw [Bool.and_eq_true, decide_eq_true_eq, decide_eq_true_eq, hle, hge]
  · rw [Bool.and_eq_true, decide_eq_true_eq, decide_eq_true_eq, ← not_le, ← not_le, hge, hle,
      not_le, not_le]

/-- A multiple that is found is positive and lies in the interval. -/
lemma of_nearest? (h : i.nearest? num den = some c) : 0 < c ∧ i.holds num den c = true := by
  unfold nearest? at h
  dsimp only at h
  generalize (if nearestEven (i.value * num) den = i.value * num / den then _ else _) = other at h
  split at h
  · rename_i hnearer
    cases h
    rw [Bool.and_eq_true, decide_eq_true_eq] at hnearer
    exact hnearer
  · split at h
    · rename_i hother
      cases h
      rw [Bool.and_eq_true, decide_eq_true_eq] at hother
      exact hother
    · cases h

/-- A grid whose step is less than two quarters has a multiple in the interval. -/
lemma nearest?_ne_none (hden : 0 < den) (hgrid : den < 2 * num) (hlow : i.low < i.value)
    (hhigh : i.value < i.high) : i.nearest? num den ≠ none := by
  have hden' : (0 : ℚ) < den := by exact_mod_cast hden
  have hhalf : (1 : ℚ) / 2 < num / den := by
    rw [lt_div_iff₀ hden']
    have : (den : ℚ) < 2 * num := by exact_mod_cast hgrid
    linarith
  obtain ⟨hbelow, habove⟩ := abs_le.mp (abs_nearestEven_le (n := i.value * num) hden)
  push_cast at hbelow habove
  rw [mul_div_assoc] at hbelow habove
  have hlow' : (i.low : ℚ) + 1 ≤ i.value := by exact_mod_cast hlow
  have hhigh' : (i.value : ℚ) + 1 ≤ i.high := by exact_mod_cast hhigh
  -- The multiple next to the value is less than a quarter away from it.
  have hleft : (i.low : ℚ) * (num / den) < nearestEven (i.value * num) den := by nlinarith
  have hright : (nearestEven (i.value * num) den : ℚ) < i.high * (num / den) := by nlinarith
  have hleft' : i.low * num < nearestEven (i.value * num) den * den := by
    rw [← mul_div_assoc, div_lt_iff₀ hden'] at hleft
    exact_mod_cast hleft
  have hright' : nearestEven (i.value * num) den * den < i.high * num := by
    rw [← mul_div_assoc, lt_div_iff₀ hden'] at hright
    exact_mod_cast hright
  have hpos : 0 < nearestEven (i.value * num) den := Nat.pos_of_mul_pos_right
    (Nat.lt_of_le_of_lt (Nat.zero_le _) hleft')
  have hholds : i.holds num den (nearestEven (i.value * num) den) = true := by
    unfold holds
    split
    · rw [Bool.and_eq_true, decide_eq_true_eq, decide_eq_true_eq]
      exact ⟨hleft'.le, hright'.le⟩
    · rw [Bool.and_eq_true, decide_eq_true_eq, decide_eq_true_eq]
      exact ⟨hleft', hright'⟩
  unfold nearest?
  dsimp only
  rw [if_pos (by rw [hholds, Bool.and_true, decide_eq_true_eq]; exact hpos)]
  exact Option.some_ne_none _

/-- The search finds a decimal in the interval if one of its grids is fine enough. -/
lemma exists_search (hlow : i.low < i.value) (hhigh : i.value < i.high) (grids : ℕ) (j : ℤ)
    (hfine : ∃ k < grids, (10 : ℚ) ^ (j - k) < 2 ^ (q - 1)) :
    ∃ c e, i.search q grids j = (c, e) ∧ 0 < c ∧ i.Contains q (c * 10 ^ e) := by
  induction grids generalizing j with
  | zero =>
    obtain ⟨k, hk, -⟩ := hfine
    omega
  | succ grids ih =>
    have hden : 0 < (scale 1 1 (q - 2)).2 * (scaleTen 1 (-j)).2 :=
      Nat.mul_pos (scale_den_pos 1 Nat.one_pos _) (scaleTen_den_pos 1 _)
    have hgrid : (((scale 1 1 (q - 2)).1 * (scaleTen 1 (-j)).1 : ℕ) : ℚ) /
        ((scale 1 1 (q - 2)).2 * (scaleTen 1 (-j)).2 : ℕ) = 2 ^ (q - 2) * 10 ^ (-j) := by
      rw [Nat.cast_mul, Nat.cast_mul, mul_div_mul_comm, scale_eq, scaleTen_eq, Nat.cast_one,
        div_one, one_mul, one_mul]
    rw [search]
    dsimp only
    cases hnearest : i.nearest? ((scale 1 1 (q - 2)).1 * (scaleTen 1 (-j)).1)
        ((scale 1 1 (q - 2)).2 * (scaleTen 1 (-j)).2) with
    | some c =>
      obtain ⟨hc, hholds⟩ := of_nearest? hnearest
      exact ⟨c, j, rfl, hc, (holds_iff hden hgrid).mp hholds⟩
    | none =>
      refine ih (j - 1) ?_
      obtain ⟨k, hk, hpow⟩ := hfine
      -- The first grid was too coarse, so the fine one comes later.
      cases k with
      | succ k =>
        refine ⟨k, by omega, ?_⟩
        rw [show j - 1 - (k : ℤ) = j - ((k + 1 : ℕ) : ℤ) by push_cast; ring]
        exact hpow
      | zero =>
        refine absurd hnearest (nearest?_ne_none hden ?_ hlow hhigh)
        have hden' : (0 : ℚ) < ((scale 1 1 (q - 2)).2 * (scaleTen 1 (-j)).2 : ℕ) := by
          exact_mod_cast hden
        have hten : (0 : ℚ) < 10 ^ j := by positivity
        have hhalf : (1 : ℚ) / 2 < 2 ^ (q - 2) * 10 ^ (-j) := by
          rw [Nat.cast_zero, sub_zero] at hpow
          have htwo : (2 : ℚ) ^ (q - 1) = 2 * 2 ^ (q - 2) := by
            rw [show q - 1 = q - 2 + 1 by ring, zpow_add_one₀ (by norm_num), mul_comm]
          rw [zpow_neg, ← div_eq_mul_inv, lt_div_iff₀ hten]
          linarith
        rw [← hgrid, lt_div_iff₀ hden'] at hhalf
        have htwice : (((scale 1 1 (q - 2)).2 * (scaleTen 1 (-j)).2 : ℕ) : ℚ) <
            2 * ((scale 1 1 (q - 2)).1 * (scaleTen 1 (-j)).1 : ℕ) := by linarith
        exact_mod_cast htwice

end Interval

/-! ### Powers of ten and of two -/

/-- Eight to the power of `k` is less than ten to the power of `k`. -/
lemma two_zpow_le_ten (k : ℕ) : (2 : ℚ) ^ (3 * k) ≤ 10 ^ k := by
  rw [pow_mul]
  exact pow_le_pow_left₀ (by norm_num) (by norm_num) k

/-- The factor `0.30103` is close enough to the logarithm of two for the exponents that occur. -/
lemma ten_zpow_le {p : ℤ} (hlow : -1100 ≤ p) (hhigh : p ≤ 1100) :
    (10 : ℚ) ^ (p * 30103 / 100000) ≤ 2 ^ (p + 12) := by
  rcases Int.le_total 0 p with hp | hp
  · -- `10 ^ 28 ≤ 2 ^ 94`
    obtain ⟨n, rfl⟩ := Int.eq_ofNat_of_zero_le hp
    obtain ⟨t, ht⟩ := Int.eq_ofNat_of_zero_le (show 0 ≤ (n : ℤ) * 30103 / 100000 by omega)
    rw [ht, zpow_natCast, show (n : ℤ) + 12 = ((n + 12 : ℕ) : ℤ) by push_cast; ring, zpow_natCast]
    refine (pow_le_pow_iff_left₀ (by positivity) (by positivity) (show 28 ≠ 0 by decide)).mp ?_
    calc ((10 : ℚ) ^ t) ^ 28 = (10 ^ 28) ^ t := by rw [← pow_mul, ← pow_mul, Nat.mul_comm]
      _ ≤ (2 ^ 94) ^ t := pow_le_pow_left₀ (by norm_num) (by norm_num) t
      _ = 2 ^ (94 * t) := by rw [← pow_mul]
      _ ≤ 2 ^ ((n + 12) * 28) := pow_le_pow_right₀ (by norm_num) (by omega)
      _ = (2 ^ (n + 12)) ^ 28 := by rw [← pow_mul]
  · -- `2 ^ 93 ≤ 10 ^ 28`
    obtain ⟨n, hn⟩ := Int.eq_ofNat_of_zero_le (show 0 ≤ -p by omega)
    obtain ⟨t, ht⟩ := Int.eq_ofNat_of_zero_le (show 0 ≤ -(p * 30103 / 100000) by omega)
    have hpow : (2 : ℚ) ^ n ≤ 2 * 10 ^ t := by
      refine (pow_le_pow_iff_left₀ (by positivity) (by positivity) (show 28 ≠ 0 by decide)).mp ?_
      calc ((2 : ℚ) ^ n) ^ 28 = 2 ^ (n * 28) := by rw [← pow_mul]
        _ ≤ 2 ^ (28 + 93 * t) := pow_le_pow_right₀ (by norm_num) (by omega)
        _ = 2 ^ 28 * (2 ^ 93) ^ t := by rw [pow_add, pow_mul]
        _ ≤ 2 ^ 28 * (10 ^ 28) ^ t := by
          gcongr
          norm_num
        _ = (2 * 10 ^ t) ^ 28 := by rw [mul_pow, ← pow_mul, ← pow_mul, Nat.mul_comm 28 t]
    rw [show p * 30103 / 100000 = -(t : ℤ) by omega, zpow_neg, zpow_natCast,
      show p + 12 = 11 - (n : ℤ) + 1 by omega, zpow_add_one₀ (by norm_num),
      zpow_sub₀ (by norm_num), zpow_natCast, inv_eq_one_div, div_mul_eq_mul_div,
      div_le_div_iff₀ (by positivity) (by positivity)]
    norm_num
    linarith [hpow, show (0 : ℚ) < 10 ^ t by positivity]

/-! ### Doubles -/

namespace Format

variable {m : ℕ} {q : ℤ} {x : ℚ}

/-- The number lies strictly inside its interval. -/
lemma low_lt_value (f : Format) (hm : 0 < m) (q : ℤ) :
    (f.interval m q).low < (f.interval m q).value := by
  simp only [interval]
  split <;> omega

/-- The number lies strictly inside its interval. -/
lemma value_lt_high (f : Format) (m : ℕ) (q : ℤ) :
    (f.interval m q).value < (f.interval m q).high := by
  simp only [interval]
  omega

/-- The ranges of the significand and the exponent of a double. -/
lemma Canonical.double_bounds (hc : double.Canonical m q) :
    m < 1 <<< 53 ∧ -1074 ≤ q ∧ q ≤ 972 := by
  have hleast : double.leastExponent = -1074 := by decide
  have hlead : double.leadingBit = 4503599627370496 := by decide
  have hinf : double.infinityBits = 2047 * 4503599627370496 := by decide
  have hlt := hc.lt_twice
  have hfinite := hc.finite
  have hq := hc.least
  rw [bits, hinf, hlead, hleast] at hfinite
  rw [hlead] at hlt
  rw [hleast] at hq
  refine ⟨lt_of_lt_of_eq hlt (by decide), hq, ?_⟩
  omega

/-- The shortest digits of a double lie in its interval. -/
theorem exists_shortest (hc : double.Canonical m q) (hm : 0 < m) :
    ∃ c e, double.shortest m q = (c, e) ∧ 0 < c ∧ (double.interval m q).Contains q (c * 10 ^ e) := by
  obtain ⟨hlt, hleast, hmost⟩ := hc.double_bounds
  have hlog : m.log2 < 53 := by
    rw [Nat.log2_lt hm.ne', ← Nat.one_shiftLeft]
    exact hlt
  have hten := ten_zpow_le (p := (m.log2 : ℤ) + 1 + q) (by omega) (by omega)
  refine Interval.exists_search (low_lt_value _ hm q) (value_lt_high _ m q) 24 _ ⟨23, by decide, ?_⟩
  have htwo : (2 : ℚ) ^ ((m.log2 : ℤ) + 1 + q + 12) ≤ 2 ^ (q - 1 + 67) :=
    zpow_le_zpow_right₀ (by norm_num) (by omega)
  rw [show ((m.log2 : ℤ) + 1 + q) * 30103 / 100000 + 1 - ((23 : ℕ) : ℤ) =
    ((m.log2 : ℤ) + 1 + q) * 30103 / 100000 - 22 by push_cast; ring,
    zpow_sub₀ (by norm_num), div_lt_iff₀ (by positivity)]
  calc (10 : ℚ) ^ (((m.log2 : ℤ) + 1 + q) * 30103 / 100000) ≤ 2 ^ (q - 1 + 67) := hten.trans htwo
    _ = 2 ^ (q - 1) * 2 ^ (67 : ℤ) := zpow_add₀ (by norm_num) _ _
    _ < 2 ^ (q - 1) * 10 ^ (22 : ℤ) := by
      refine mul_lt_mul_of_pos_left ?_ (by positivity)
      norm_num

/-- A number that rounds to a positive double is neither too large nor too small. -/
lemma bounds_of_contains (hc : double.Canonical m q) (hm : 0 < m)
    (h : (double.interval m q).Contains q x) : 1 < x * 10 ^ 360 ∧ x < 10 ^ 350 := by
  obtain ⟨hlt, hleast, hmost⟩ := hc.double_bounds
  obtain ⟨hbelow, habove⟩ := h.bounds
  have hunit : (0 : ℚ) < 2 ^ (q - 2) := by positivity
  have hm' : (1 : ℚ) ≤ m := by exact_mod_cast hm
  have hlow := le_cast_low (f := double) hm q
  rw [cast_high] at habove
  constructor
  · have hx : (2 : ℚ) ^ (-1076 : ℤ) < x := by
      calc (2 : ℚ) ^ (-1076 : ℤ) ≤ 2 ^ (q - 2) := zpow_le_zpow_right₀ (by norm_num) (by omega)
        _ < (double.interval m q).low * 2 ^ (q - 2) := by nlinarith
        _ ≤ x := hbelow
    have hten : (2 : ℚ) ^ (1076 : ℤ) ≤ 10 ^ 360 := by
      calc (2 : ℚ) ^ (1076 : ℤ) ≤ 2 ^ (((3 * 360 : ℕ) : ℤ)) :=
          zpow_le_zpow_right₀ (by norm_num) (by norm_num)
        _ ≤ 10 ^ 360 := by
          rw [zpow_natCast]
          exact two_zpow_le_ten 360
    calc (1 : ℚ) = 2 ^ (-1076 : ℤ) * 2 ^ (1076 : ℤ) := by
          rw [← zpow_add₀ (by norm_num), neg_add_cancel, zpow_zero]
      _ < x * 2 ^ (1076 : ℤ) := mul_lt_mul_of_pos_right hx (by positivity)
      _ ≤ x * 10 ^ 360 := by
        refine mul_le_mul_of_nonneg_left hten ?_
        exact (lt_trans (by positivity) hx).le
  · have hm'' : (m : ℚ) + 1 ≤ 2 ^ (53 : ℤ) := by
      have hcast : m + 1 ≤ 2 ^ 53 := by
        rw [Nat.one_shiftLeft] at hlt
        exact hlt
      exact_mod_cast hcast
    calc x ≤ (4 * m + 2) * 2 ^ (q - 2) := habove
      _ < 2 ^ (55 : ℤ) * 2 ^ (970 : ℤ) := by
        refine mul_lt_mul_of_lt_of_le_of_nonneg_of_pos ?_ ?_ (by positivity) (by positivity)
        · norm_num at hm'' ⊢
          linarith
        · exact zpow_le_zpow_right₀ (by norm_num) (by omega)
      _ = 2 ^ (1025 : ℤ) := by
        rw [← zpow_add₀ (by norm_num)]
        congr 1
      _ ≤ 2 ^ (((3 * 350 : ℕ) : ℤ)) := zpow_le_zpow_right₀ (by norm_num) (by norm_num)
      _ ≤ 10 ^ 350 := by
        rw [zpow_natCast]
        exact two_zpow_le_ten 350

end Format

/-! ### Reading decimals -/

namespace Decimal

variable {m : ℕ} {q : ℤ}

/-- The absolute value of a decimal. -/
def magnitude (d : Decimal) : ℚ :=
  d.digits * 10 ^ d.exponent

/-- A decimal that rounds to a positive double is read as this double. -/
theorem toDouble_of_contains {d : Decimal} (hc : Format.double.Canonical m q) (hm : 0 < m)
    (h : (Format.double.interval m q).Contains q d.magnitude) :
    d.toDouble = Float.ofBits (UInt64.ofNat
      ((if d.negative then Format.double.signBit else 0) + Format.double.bits m q)) := by
  obtain ⟨hsmall, hlarge⟩ := Format.bounds_of_contains hc hm h
  have hdigits : d.digits ≠ 0 := by
    intro hzero
    rw [magnitude, hzero] at hsmall
    norm_num at hsmall
  have hone : (1 : ℚ) ≤ d.digits := by exact_mod_cast Nat.pos_of_ne_zero hdigits
  have hten : (0 : ℚ) < 10 ^ d.exponent := by positivity
  have hmost : ¬ 400 < d.exponent := by
    intro hlt
    have hpow : (10 : ℚ) ^ (350 : ℤ) ≤ 10 ^ d.exponent :=
      zpow_le_zpow_right₀ (by norm_num) (by omega)
    rw [zpow_ofNat] at hpow
    have : (10 : ℚ) ^ 350 ≤ d.magnitude := hpow.trans (le_mul_of_one_le_left hten.le hone)
    exact absurd hlarge (not_lt.mpr this)
  have hleast : ¬ d.exponent < -(400 + (d.digits.log2 : ℤ)) := by
    intro hlt
    obtain ⟨-, hlog⟩ := Format.zpow_log2_le (Nat.pos_of_ne_zero hdigits)
    have hdigits' : (d.digits : ℚ) ≤ 10 ^ ((d.digits.log2 : ℤ) + 1) := by
      refine hlog.le.trans ?_
      have hcast : (d.digits.log2 : ℤ) + 1 = ((d.digits.log2 + 1 : ℕ) : ℤ) := by push_cast; ring
      rw [hcast, zpow_natCast, zpow_natCast]
      exact pow_le_pow_left₀ (by norm_num) (by norm_num) _
    have hproduct : d.magnitude * 10 ^ 360 ≤ 1 := by
      calc d.magnitude * 10 ^ 360
          ≤ 10 ^ ((d.digits.log2 : ℤ) + 1) * 10 ^ d.exponent * 10 ^ (360 : ℤ) := by
            rw [magnitude, zpow_ofNat]
            gcongr
        _ = 10 ^ ((d.digits.log2 : ℤ) + 1 + d.exponent + 360) := by
            rw [← zpow_add₀ (by norm_num), ← zpow_add₀ (by norm_num)]
        _ ≤ 10 ^ (0 : ℤ) := zpow_le_zpow_right₀ (by norm_num) (by omega)
        _ = 1 := zpow_zero _
    exact absurd hsmall (not_lt.mpr hproduct)
  unfold toDouble
  rw [if_neg hdigits, if_neg hmost, if_neg hleast]
  dsimp only
  unfold double Format.roundSigned
  rw [Format.round_of_contains hc hm (scaleTen_den_pos _ _) (by rw [scaleTen_eq]; exact h)]

/-- A decimal without digits is read as a zero. -/
lemma toDouble_of_zero {d : Decimal} (h : d.digits = 0) :
    d.toDouble = Float.ofBits (UInt64.ofNat
      (if d.negative then Format.double.signBit else 0)) := by
  unfold toDouble
  rw [if_pos h]
  rfl

end Decimal

end DialogChart.Number
