import DialogChart.Coordinate
import DialogChart.Proofs.Number.Single

/-!
# Exact arithmetic on singles

An operation on singles rounds the exact result, and so it gives the exact result wherever that is
itself the value of a single: this is shown for sums, differences, products and halves, for the
larger of two singles and for the single of a count.  Numbers with few digits are values of singles
(`isSingle_of_lt`), among them the multiples of one half up to `2 ^ 23` (`isSingle_half`).
-/

namespace DialogChart.Number

open Float.Model.UnpackedFloat
open Float.Model (UnpackedFloat totalExponent)

/-! ### Sums and differences -/

/-- A common exponent keeps the numbers. -/
lemma apply_decreaseExponent {m : ℕ} {e t : ℤ} (h : t ≤ e) (s : Sign) :
    ((s.apply (decreaseExponent m e t).1 : ℤ) : ℚ) * 2 ^ t = ((s.apply m : ℤ) : ℚ) * 2 ^ e := by
  unfold decreaseExponent
  dsimp only
  have hvalue : (((m <<< (e - t).toNat : ℕ) : ℚ)) * 2 ^ t = m * 2 ^ e := by
    rw [zpow_eq_mul_zpow h, Nat.shiftLeft_eq]
    push_cast
    ring
  exact apply_eq_apply hvalue s

/-- The opposite sign gives the opposite number. -/
lemma apply_neg (s : Sign) (n : ℤ) : (-s).apply n = -s.apply n := by
  cases s
  · exact (neg_neg n).symm
  · rfl

variable {x y : Float32} {a b : ℚ}

/-- A sum that is the value of a single is exact. -/
theorem value?_add (hx : value? x = some a) (hy : value? y = some b) (h : IsSingle (a + b)) :
    value? (x + y) = some (a + b) := by
  change value? (.ofModel (.pack (add .binary32 x.toModel.unpack y.toModel.unpack))) = _
  rcases unpack_cases hx with ⟨rfl, s, hs⟩ | ⟨s, m, e, hm, hc, ha, hs⟩
  · rcases unpack_cases hy with ⟨rfl, t, ht⟩ | ⟨t, n, q, hn, hd, hb, ht⟩
    · rw [hs, ht, add_zero]
      cases s <;> cases t <;> exact value?_pack_zero _
    · rw [hs, ht, zero_add, hb]
      exact value?_pack_finite hd t hn
  · rcases unpack_cases hy with ⟨rfl, t, ht⟩ | ⟨t, n, q, hn, hd, hb, ht⟩
    · rw [hs, ht, add_zero, ha]
      exact value?_pack_finite hc s hm
    · rw [hs, ht]
      have hsum : a + b = ((s.apply (decreaseExponent m e (min e q)).1 +
          t.apply (decreaseExponent n q (min e q)).1 : ℤ) : ℚ) * 2 ^ min e q := by
        rw [Int.cast_add, add_mul, apply_decreaseExponent (min_le_left e q),
          apply_decreaseExponent (min_le_right e q), ← ha, ← hb]
      rw [hsum] at h ⊢
      exact value?_pack_normalize h .positive

/-- A difference that is the value of a single is exact. -/
theorem value?_sub (hx : value? x = some a) (hy : value? y = some b) (h : IsSingle (a - b)) :
    value? (x - y) = some (a - b) := by
  change value? (.ofModel (.pack (sub .binary32 x.toModel.unpack y.toModel.unpack))) = _
  rcases unpack_cases hx with ⟨rfl, s, hs⟩ | ⟨s, m, e, hm, hc, ha, hs⟩
  · rcases unpack_cases hy with ⟨rfl, t, ht⟩ | ⟨t, n, q, hn, hd, hb, ht⟩
    · rw [hs, ht, sub_zero]
      cases s <;> cases t <;> exact value?_pack_zero _
    · have hneg : (0 : ℚ) - b = (((-t).apply n : ℤ) : ℚ) * 2 ^ q := by
        rw [apply_neg, Int.cast_neg, neg_mul, ← hb, zero_sub]
      rw [hs, ht, hneg]
      exact value?_pack_finite hd (-t) hn
  · rcases unpack_cases hy with ⟨rfl, t, ht⟩ | ⟨t, n, q, hn, hd, hb, ht⟩
    · rw [hs, ht, sub_zero, ha]
      exact value?_pack_finite hc s hm
    · rw [hs, ht]
      have hdiff : a - b = ((s.apply (decreaseExponent m e (min e q)).1 -
          t.apply (decreaseExponent n q (min e q)).1 : ℤ) : ℚ) * 2 ^ min e q := by
        rw [Int.cast_sub, sub_mul, apply_decreaseExponent (min_le_left e q),
          apply_decreaseExponent (min_le_right e q), ← ha, ← hb]
      rw [hdiff] at h ⊢
      exact value?_pack_normalize h .positive

/-! ### Products and halves -/

/-- The magnitude of a signed significand. -/
lemma abs_apply (s : Sign) (m : ℕ) (q : ℤ) :
    |((s.apply m : ℤ) : ℚ) * 2 ^ q| = m * 2 ^ q := by
  have hnonneg : (0 : ℚ) ≤ m * 2 ^ q := by positivity
  cases s
  · rw [cast_apply_negative, abs_neg, abs_of_nonneg hnonneg]
  · rw [cast_apply_positive, abs_of_nonneg hnonneg]

/-- The parts of a magnitude that is the value of a single. -/
lemma IsSingle.exists_parts {n : ℕ} {e : ℤ} {s : Sign} (hn : 0 < n)
    (h : IsSingle (((s.apply n : ℤ) : ℚ) * 2 ^ e)) :
    ∃ m q, 0 < m ∧ Format.single.Canonical m q ∧ (n : ℚ) * 2 ^ e = m * 2 ^ q := by
  have hpos : (0 : ℚ) < n * 2 ^ e := by positivity
  obtain ⟨x, hx⟩ := h
  rcases unpack_cases hx with ⟨hzero, -⟩ | ⟨t, m, q, hm, hc, hvalue, -⟩
  · have habs := abs_apply s n e
    rw [hzero, abs_zero] at habs
    exact absurd habs hpos.ne
  · refine ⟨m, q, hm, hc, ?_⟩
    rw [← abs_apply s, hvalue, abs_apply]

/-- A result with enough digits is rounded to its value. -/
lemma value?_pack_roundWithAccuracy {m n : ℕ} {e q : ℤ} (hm : 0 < m)
    (hc : Format.single.Canonical m q) (h : (n : ℚ) * 2 ^ e = m * 2 ^ q) (hle : e ≤ q)
    (s : Sign) :
    value? (.ofModel (.pack (roundWithAccuracy .binary32 s n e .exact))) =
      some (((s.apply n : ℤ) : ℚ) * 2 ^ e) := by
  have heq := eq_mul_two_pow h hle
  rw [apply_eq_apply h]
  obtain ⟨k, rfl⟩ : ∃ k : ℕ, e = q - k := ⟨(q - e).toNat, by omega⟩
  rw [sub_sub_cancel, Int.toNat_natCast] at heq
  rw [heq, roundWithAccuracy_exact hc hm, value?_pack_finite hc]

/-- The sign of a product. -/
lemma apply_mul_apply (s t : Sign) (m n : ℤ) : s.apply m * t.apply n = (s * t).apply (m * n) := by
  cases s <;> cases t
  · exact neg_mul_neg m n
  · exact neg_mul m n
  · exact mul_neg m n
  · rfl

/-- A product that is the value of a single is exact. -/
theorem value?_mul (hx : value? x = some a) (hy : value? y = some b) (h : IsSingle (a * b)) :
    value? (x * y) = some (a * b) := by
  change value? (.ofModel (.pack (mul .binary32 x.toModel.unpack y.toModel.unpack))) = _
  rcases unpack_cases hx with ⟨rfl, s, hs⟩ | ⟨s, m, e, hm, hc, ha, hs⟩
  · rw [zero_mul, hs]
    rcases unpack_cases hy with ⟨-, t, ht⟩ | ⟨t, n, q, hn, -, -, ht⟩
    · rw [ht]
      exact value?_pack_zero _
    · rw [ht]
      exact value?_pack_zero _
  · rcases unpack_cases hy with ⟨rfl, t, ht⟩ | ⟨t, n, q, hn, hd, hb, ht⟩
    · rw [mul_zero, hs, ht]
      exact value?_pack_zero _
    · rw [hs, ht]
      have hproduct : a * b = (((s * t).apply (m * n : ℕ) : ℤ) : ℚ) * 2 ^ (e + q) := by
        rw [Nat.cast_mul, ← apply_mul_apply, Int.cast_mul, zpow_add₀ (by norm_num), ha, hb]
        ring
      rw [hproduct] at h ⊢
      obtain ⟨k, p, hkpos, hk, heq⟩ := h.exists_parts (Nat.mul_pos hm hn)
      refine value?_pack_roundWithAccuracy hkpos hk heq ?_ (s * t)
      -- The product of the significands has enough digits, unless both numbers are tiny.
      by_contra hlt
      have hshift := eq_mul_two_pow heq.symm (le_of_not_ge hlt)
      have htwice : m * n * 2 ^ 1 ≤ k := by
        rw [hshift]
        exact Nat.mul_le_mul_left _ (Nat.pow_le_pow_right (by norm_num) (by omega))
      have hlead : Format.single.leadingBit = 2 ^ 23 := by decide
      have hsmall : m * n < Format.single.leadingBit := by
        have hk' := hk.lt_twice
        omega
      have he := hc.leading.resolve_right (by
        have hle := Nat.le_mul_of_pos_right m hn
        omega)
      have hq := hd.leading.resolve_right (by
        have hle := Nat.le_mul_of_pos_left n hm
        omega)
      have hleast : Format.single.leastExponent = -149 := by decide
      have hp := hk.least
      omega

/-- Halving the significand of a number needs no rounding if the half is the value of a single. -/
lemma divCore_two {m n : ℕ} {q p : ℤ} (hc : Format.single.Canonical m q) (hm : 0 < m)
    (hd : Format.single.Canonical n p) (h : (m : ℚ) * 2 ^ (q - 1) = n * 2 ^ p) :
    ∃ k t, divCore .binary32 m q (2 ^ 23) (-22) = (k, t, .exact) ∧
      (k : ℚ) * 2 ^ t = m * 2 ^ (q - 1) ∧ t ≤ p := by
  have hlead : Format.single.leadingBit = 2 ^ 23 := by decide
  have hleast : Format.single.leastExponent = -149 := by decide
  have hmin : Float.Model.Format.binary32.minExponent = -149 := by decide
  have hbits : Float.Model.Format.binary32.mantissaBits = 24 := by decide
  obtain ⟨hq, htwice, hleading, -⟩ := hc
  have hp := hd.least
  have hn := hd.lt_twice
  rw [hlead] at htwice hleading hn
  rw [hleast] at hq hleading hp
  have hlog : m.log2 < 24 := (Nat.log2_lt hm.ne').mpr htwice
  unfold divCore Float.Model.Format.targetExponent totalExponent
  rw [Nat.log2_two_pow, hmin, hbits]
  dsimp only
  set t := min (q - -22) (max ((m.log2 : ℤ) + 1 + q - ((23 : ℕ) + 1 + -22) - (24 : ℕ)) (-149))
    with ht
  -- The significand is even, or it is shifted by more than is divided out.
  have hexact : t ≤ p ∧ ∃ k, m * 2 ^ (q - -22 - t).toNat = k * 2 ^ 23 := by
    rcases eq_or_lt_of_le hq with rfl | hq
    · have heven := eq_mul_two_pow h (by omega)
      have hshift : (-149 - -22 - t).toNat = 22 := by omega
      have hsplit : (p - (-149 - 1)).toNat = (p + 149).toNat + 1 := by omega
      rw [hsplit] at heven
      refine ⟨by omega, n * 2 ^ (p + 149).toNat, ?_⟩
      rw [hshift, heven]
      ring
    · have hleading := hleading.resolve_left hq.ne'
      have hlog' : 23 ≤ m.log2 := (Nat.le_log2 hm.ne').mpr hleading
      refine ⟨?_, m * 2 ^ ((q - -22 - t).toNat - 23), ?_⟩
      · by_contra hlt
        have hlarge := eq_mul_two_pow h.symm (by omega)
        have hpow : m * 2 ^ 2 ≤ n := by
          rw [hlarge]
          exact Nat.mul_le_mul_left _ (Nat.pow_le_pow_right (by norm_num) (by omega))
        omega
      · rw [mul_assoc, ← pow_add, Nat.sub_add_cancel (by omega)]
  obtain ⟨htp, k, hk⟩ := hexact
  refine ⟨k, t, ?_, ?_, htp⟩
  · rw [Nat.shiftLeft_eq, hk, Nat.mul_div_cancel _ (by norm_num), Nat.mul_mod_left]
    rfl
  · have hcast : (m : ℚ) * 2 ^ (q - -22 - t).toNat = k * 2 ^ 23 := by exact_mod_cast hk
    have hsum : (2 : ℚ) ^ (q - 1) * 2 ^ 23 = 2 ^ (q - -22 - t).toNat * 2 ^ t := by
      rw [← zpow_eq_mul_zpow (min_le_left _ _), ← zpow_natCast, ← zpow_add₀ (by norm_num)]
      congr 1
      ring
    refine mul_right_cancel₀ (pow_ne_zero 23 (two_ne_zero : (2 : ℚ) ≠ 0)) ?_
    calc (k : ℚ) * 2 ^ t * 2 ^ 23 = (k : ℚ) * 2 ^ 23 * 2 ^ t := by ring
      _ = (m : ℚ) * (2 ^ (q - -22 - t).toNat * 2 ^ t) := by rw [← hcast, mul_assoc]
      _ = (m : ℚ) * 2 ^ (q - 1) * 2 ^ 23 := by rw [← hsum, mul_assoc]

/-- A half that is the value of a single is exact. -/
theorem value?_half (hx : value? x = some a) (h : IsSingle (a / 2)) :
    value? (Coordinate.half x) = some (a / 2) := by
  have htwo : (2 : Float32).toModel.unpack = .finite .positive (2 ^ 23) (-22) (by decide) := rfl
  change value? (.ofModel (.pack (div .binary32 x.toModel.unpack (2 : Float32).toModel.unpack))) =
    some (a / 2)
  rw [htwo]
  rcases unpack_cases hx with ⟨rfl, s, hs⟩ | ⟨s, m, q, hm, hc, ha, hs⟩
  · rw [hs, zero_div]
    exact value?_pack_zero _
  · have hhalf : a / 2 = ((s.apply m : ℤ) : ℚ) * 2 ^ (q - 1) := by
      rw [ha, zpow_sub_one₀ (by norm_num), ← mul_assoc, div_eq_mul_inv]
    have hsign : s / .positive = s := by cases s <;> rfl
    rw [hhalf] at h
    obtain ⟨n, p, hn, hd, hmagnitude⟩ := h.exists_parts hm
    obtain ⟨k, t, hcore, hk, htp⟩ := divCore_two hc hm hd hmagnitude
    rw [hs, hhalf, ← apply_eq_apply hk]
    change value? (.ofModel (.pack (
      match divCore .binary32 m q (2 ^ 23) (-22) with
      | (m, e, acc) => roundWithAccuracy .binary32 (s / .positive) m e acc))) = _
    rw [hcore, hsign]
    exact value?_pack_roundWithAccuracy hn hd (hk.trans hmagnitude) htp s

/-! ### Comparisons -/

/-- A number with a smaller exponent is smaller. -/
lemma magnitude_lt {m n : ℕ} {e q : ℤ} (hc : Format.single.Canonical m e)
    (hd : Format.single.Canonical n q) (h : e < q) : (m : ℚ) * 2 ^ e < n * 2 ^ q := by
  have hleading : Format.single.leadingBit ≤ n :=
    hd.leading.resolve_left (lt_of_le_of_lt hc.least h).ne'
  have hm : (m : ℚ) < 2 * Format.single.leadingBit := by exact_mod_cast hc.lt_twice
  have hn : (Format.single.leadingBit : ℚ) ≤ n := by exact_mod_cast hleading
  have hpow : (2 : ℚ) ^ (e + 1) ≤ 2 ^ q := zpow_le_zpow_right₀ (by norm_num) h
  calc (m : ℚ) * 2 ^ e < 2 * Format.single.leadingBit * 2 ^ e := by gcongr
    _ = Format.single.leadingBit * 2 ^ (e + 1) := by
      rw [zpow_add_one₀ (by norm_num)]
      ring
    _ ≤ n * 2 ^ q := by gcongr

/-- Magnitudes are compared by their exponents first. -/
lemma compare_parts {m n : ℕ} {e q : ℤ} (hc : Format.single.Canonical m e)
    (hd : Format.single.Canonical n q) :
    (compare e q).then (compare m n) = compare ((m : ℚ) * 2 ^ e) (n * 2 ^ q) := by
  rcases lt_trichotomy e q with h | rfl | h
  · rw [compare_lt_iff_lt.mpr h, compare_lt_iff_lt.mpr (magnitude_lt hc hd h)]
    rfl
  · have hpow : (0 : ℚ) < 2 ^ e := by positivity
    rw [compare_eq_iff_eq.mpr rfl, Ordering.then]
    rcases lt_trichotomy m n with h | rfl | h
    · have hlt : (m : ℚ) < n := by exact_mod_cast h
      rw [compare_lt_iff_lt.mpr h, compare_lt_iff_lt.mpr (mul_lt_mul_of_pos_right hlt hpow)]
    · rw [compare_eq_iff_eq.mpr rfl, compare_eq_iff_eq.mpr rfl]
    · have hlt : (n : ℚ) < m := by exact_mod_cast h
      rw [compare_gt_iff_gt.mpr h, compare_gt_iff_gt.mpr (mul_lt_mul_of_pos_right hlt hpow)]
  · rw [compare_gt_iff_gt.mpr h, compare_gt_iff_gt.mpr (magnitude_lt hd hc h)]
    rfl

/-- Opposite numbers are compared the other way round. -/
lemma compare_neg_neg (a b : ℚ) : compare (-a) (-b) = (compare a b).swap := by
  rcases lt_trichotomy a b with h | rfl | h
  · rw [compare_lt_iff_lt.mpr h, compare_gt_iff_gt.mpr (neg_lt_neg h)]
    rfl
  · rw [compare_eq_iff_eq.mpr rfl, compare_eq_iff_eq.mpr rfl]
    rfl
  · rw [compare_gt_iff_gt.mpr h, compare_lt_iff_lt.mpr (neg_lt_neg h)]
    rfl

/-- Singles with a value are compared by their values. -/
lemma compare_unpack (hx : value? x = some a) (hy : value? y = some b) :
    x.toModel.unpack.compare y.toModel.unpack = some (compare a b) := by
  rcases unpack_cases hx with ⟨rfl, s, hs⟩ | ⟨s, m, e, hm, hc, rfl, hs⟩
  · rcases unpack_cases hy with ⟨rfl, t, ht⟩ | ⟨t, n, q, hn, hd, rfl, ht⟩
    · rw [hs, ht, compare_eq_iff_eq.mpr rfl]
      rfl
    · have hpos : (0 : ℚ) < n * 2 ^ q := by positivity
      rw [hs, ht]
      cases t with
      | positive =>
        rw [cast_apply_positive, compare_lt_iff_lt.mpr hpos]
        rfl
      | negative =>
        rw [cast_apply_negative, compare_gt_iff_gt.mpr (neg_lt_zero.mpr hpos)]
        rfl
  · have hpos : (0 : ℚ) < m * 2 ^ e := by positivity
    rcases unpack_cases hy with ⟨rfl, t, ht⟩ | ⟨t, n, q, hn, hd, rfl, ht⟩
    · rw [hs, ht]
      cases s with
      | positive =>
        rw [cast_apply_positive, compare_gt_iff_gt.mpr hpos]
        rfl
      | negative =>
        rw [cast_apply_negative, compare_lt_iff_lt.mpr (neg_lt_zero.mpr hpos)]
        rfl
    · have hpos' : (0 : ℚ) < n * 2 ^ q := by positivity
      rw [hs, ht]
      cases s <;> cases t
      · rw [cast_apply_negative, cast_apply_negative, compare_neg_neg, ← compare_parts hc hd]
        rfl
      · rw [cast_apply_negative, cast_apply_positive, compare_lt_iff_lt.mpr (by linarith)]
        rfl
      · rw [cast_apply_positive, cast_apply_negative, compare_gt_iff_gt.mpr (by linarith)]
        rfl
      · rw [cast_apply_positive, cast_apply_positive, ← compare_parts hc hd]
        rfl

/-- The order of singles with a value is that of their values. -/
lemma lt_iff_lt (hx : value? x = some a) (hy : value? y = some b) : x < y ↔ a < b := by
  have hcompare : x < y ↔ x.toModel.unpack.compare y.toModel.unpack = some .lt := by
    change decide ((x.toModel.unpack.compare y.toModel.unpack == some .lt) = true) = true ↔ _
    simp
  rw [hcompare, compare_unpack hx hy, Option.some.injEq, compare_lt_iff_lt]

/-- A single with a value is not a NaN. -/
lemma isNaN_eq_false (hx : value? x = some a) : x.isNaN = false := by
  change x.toModel.unpack.isNaN = false
  rcases unpack_cases hx with ⟨-, s, hs⟩ | ⟨s, m, q, hm, -, -, hs⟩
  · rw [hs]
    rfl
  · rw [hs]
    rfl

/-- The larger of two singles has the larger value. -/
theorem value?_larger (hx : value? x = some a) (hy : value? y = some b) :
    value? (Coordinate.larger x y) = some (max a b) := by
  change value? (if x.isNaN then y else if y.isNaN then x else if x < y then y else x) = _
  rw [isNaN_eq_false hx, isNaN_eq_false hy, if_neg Bool.false_ne_true, if_neg Bool.false_ne_true]
  rcases lt_or_ge a b with h | h
  · rw [if_pos ((lt_iff_lt hx hy).mpr h), hy, max_eq_right h.le]
  · rw [if_neg (mt (lt_iff_lt hx hy).mp h.not_gt), hx, max_eq_left h]

/-! ### Counts -/

/-- A finite pattern is kept as it is. -/
lemma ofSingle_ofBits {pattern : ℕ} (hlt : pattern < 2 * Format.single.signBit) {negative : Bool}
    {m : ℕ} {q : ℤ} (h : Format.single.decode pattern = .finite negative m q) :
    ofSingle (Float32.ofBits (UInt32.ofNat pattern)) = .finite negative m q := by
  have hsize : 2 * Format.single.signBit = 2 ^ 32 := by decide
  have hpattern : (UInt32.ofNat pattern).toBitVec.toNat = pattern := by
    rw [UInt32.toNat_toBitVec, UInt32.toNat_ofNat', Nat.mod_eq_of_lt (hsize ▸ hlt)]
  change ofSingle (.ofModel (.pack (unpack .binary32 (UInt32.ofNat pattern).toBitVec))) = _
  rw [unpack_eq, hpattern, h]
  exact ofSingle_pack (Format.decode_eq_finite hlt h).1 negative

/-- A number rounds to itself. -/
lemma contains_self {m : ℕ} (hm : 0 < m) (q : ℤ) :
    (Format.single.interval m q).Contains q (m * 2 ^ q) := by
  have hunit : (0 : ℚ) < 2 ^ (q - 2) := by positivity
  have hvalue : (m : ℚ) * 2 ^ q = (Format.single.interval m q).value * 2 ^ (q - 2) := by
    rw [Format.zpow_eq_quarters]
    simp only [Format.interval]
    push_cast
    ring
  have hlow : ((Format.single.interval m q).low : ℚ) < (Format.single.interval m q).value :=
    Nat.cast_lt.mpr (Format.single.low_lt_value hm q)
  have hhigh : ((Format.single.interval m q).value : ℚ) < (Format.single.interval m q).high :=
    Nat.cast_lt.mpr (Format.single.value_lt_high m q)
  have hbelow := mul_lt_mul_of_pos_right hlow hunit
  have habove := mul_lt_mul_of_pos_right hhigh hunit
  rw [hvalue]
  unfold Interval.Contains
  split
  · exact ⟨hbelow.le, habove.le⟩
  · exact ⟨hbelow, habove⟩

/-- The single of a count that is the value of a single is exact. -/
theorem value?_ofCount {n : ℕ} (h : IsSingle n) :
    value? (Coordinate.ofCount n) = some (n : ℚ) := by
  rcases Nat.eq_zero_or_pos n with rfl | hn
  · have hzero : ofSingle (Coordinate.ofCount 0) = .finite false 0 (-149) := by decide
    rw [value?, hzero, Datum.value?, Nat.cast_zero, zero_mul, mul_zero]
  · have hcast : (n : ℚ) = ((Sign.positive.apply n : ℤ) : ℚ) * 2 ^ (0 : ℤ) := by
      rw [cast_apply_positive, zpow_zero, mul_one]
    rw [hcast] at h
    obtain ⟨m, q, hm, hc, heq⟩ := h.exists_parts hn
    rw [zpow_zero, mul_one] at heq
    have hround : Format.single.round n 1 = Format.single.bits m q := by
      refine Format.round_of_contains hc hm Nat.one_pos ?_
      rw [Nat.cast_one, div_one, heq]
      exact contains_self hm q
    have hdecode : Format.single.decode (Format.single.roundSigned false n 1) =
        .finite false m q := by
      unfold Format.roundSigned
      rw [hround]
      exact Format.decode_bits hc false
    have hparts : ofSingle (Coordinate.ofCount n) = .finite false m q :=
      ofSingle_ofBits (Format.single.roundSigned_lt false n 1) hdecode
    rw [value?, hparts, Datum.value?, if_neg Bool.false_ne_true, one_mul, heq]

/-- The single of a count has a value, unless the count is astronomic. -/
lemma exists_value?_ofCount {n : ℕ} (hn : n < 2 ^ 64) :
    ∃ a, value? (Coordinate.ofCount n) = some a := by
  have hlead : (Format.single.leadingBit : ℚ) = 2 ^ (23 : ℤ) := Format.single.leadingBit_eq
  have hsmall : (n : ℚ) < 2 * Format.single.leadingBit * 2 ^ (40 : ℤ) := by
    have hcast : (n : ℚ) < ((2 ^ 64 : ℕ) : ℚ) := Nat.cast_lt.mpr hn
    rw [hlead]
    norm_num at hcast ⊢
    linarith
  have hround := Format.round_lt_infinityBits (by decide) hsmall (by decide)
  have hlt := Format.single.roundSigned_lt false n 1
  have hmod := Format.single.roundSigned_mod false n 1
  have hfinite : ∃ negative m q,
      Format.single.decode (Format.single.roundSigned false n 1) = .finite negative m q := by
    unfold Format.decode
    dsimp only
    rw [hmod, if_neg (by omega), if_neg hround.ne]
    split
    · exact ⟨_, _, _, rfl⟩
    · exact ⟨_, _, _, rfl⟩
  obtain ⟨negative, m, q, hdecode⟩ := hfinite
  have hparts : ofSingle (Coordinate.ofCount n) = .finite negative m q :=
    ofSingle_ofBits hlt hdecode
  exact ⟨_, congrArg Datum.value? hparts⟩

/-! ### Numbers with few digits -/

/-- A significand of at most 24 bits, with an exponent in range, gives the value of a single. -/
lemma isSingle_of_lt {n : ℕ} {e : ℤ} (hn : n < 2 ^ 24) (hlow : -149 ≤ e) (hhigh : e ≤ 104)
    (s : Sign) : IsSingle (((s.apply n : ℤ) : ℚ) * 2 ^ e) := by
  rcases Nat.eq_zero_or_pos n with rfl | hpos
  · refine ⟨_, (value?_pack_zero s).trans ?_⟩
    cases s <;> simp [Sign.apply]
  · have hlog : n.log2 < 24 := (Nat.log2_lt hpos.ne').mpr hn
    -- The significand is filled up with zeros, as far as the exponent allows.
    obtain ⟨k, hk⟩ : ∃ k : ℕ, (k : ℤ) = min (23 - n.log2 : ℤ) (e + 149) :=
      ⟨(min (23 - n.log2 : ℤ) (e + 149)).toNat, by omega⟩
    have htop : n * 2 ^ k < 2 ^ 24 := by
      rw [← Nat.log2_lt (by positivity), log2_mul_two_pow hpos]
      omega
    have hc : Format.single.Canonical (n * 2 ^ k) (e - k) := by
      have hlead : Format.single.leadingBit = 2 ^ 23 := by decide
      have hleast : Format.single.leastExponent = -149 := by decide
      have hinf : Format.single.infinityBits = 255 * 2 ^ 23 := by decide
      refine ⟨by omega, by omega, ?_, ?_⟩
      · rw [hleast, hlead, ← Nat.le_log2 (by positivity), log2_mul_two_pow hpos]
        omega
      · rw [Format.bits, hleast, hlead, hinf]
        omega
    refine ⟨_, (value?_pack_finite hc s (by positivity)).trans (congrArg some ?_)⟩
    refine apply_eq_apply ?_ s
    rw [zpow_eq_mul_zpow (sub_le_self e (Int.natCast_nonneg k)), sub_sub_cancel,
      Int.toNat_natCast]
    push_cast
    ring

/-- A multiple of one half up to `2 ^ 23` is the value of a single. -/
theorem isSingle_half {k : ℤ} (h : |(k : ℚ) / 2| ≤ 2 ^ 23) : IsSingle ((k : ℚ) / 2) := by
  have hk : k.natAbs ≤ 2 ^ 24 := by
    rw [abs_div, abs_two, div_le_iff₀ (by norm_num)] at h
    have hcast : ((k.natAbs : ℕ) : ℚ) ≤ ((2 ^ 24 : ℕ) : ℚ) := by
      rw [Nat.cast_natAbs, Int.cast_abs]
      push_cast
      linarith
    exact Nat.cast_le.mp hcast
  obtain ⟨s, hs⟩ : ∃ s : Sign, k = s.apply k.natAbs := by
    rcases Int.natAbs_eq k with h | h
    · exact ⟨.positive, h⟩
    · exact ⟨.negative, h⟩
  rw [hs]
  rcases Nat.lt_or_eq_of_le hk with hlt | heq
  · rw [div_eq_mul_inv, ← zpow_neg_one]
    exact isSingle_of_lt hlt (by norm_num) (by norm_num) s
  · -- The bound itself has one digit more before the last zero is dropped.
    have hvalue : ((s.apply (2 ^ 24 : ℕ) : ℤ) : ℚ) / 2 = ((s.apply (2 ^ 23 : ℕ) : ℤ) : ℚ) *
        2 ^ (0 : ℤ) := by
      cases s <;> norm_num [Sign.apply]
    rw [heq, hvalue]
    exact isSingle_of_lt (by norm_num) (by norm_num) (by norm_num) s

end DialogChart.Number
