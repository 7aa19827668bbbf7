import DialogChart.Proofs.Number.Shortest
import Mathlib

/-!
# Doubles and their bits

A double is its pattern of bits, up to the patterns of NaN, which are all taken for one.  So a
finite double is the one that is made from the bits of its parts (`eq_ofBits_of_finite`), and
rounding a fraction never gives a NaN (`ofDouble_double_ne_nan`), as the patterns up to that of
infinity are kept.

With the results on rounding this says that a double is read back from its digits
(`Decimal.toDouble_eq`).
-/

namespace DialogChart.Number

open Float.Model.UnpackedFloat

/-! ### Patterns that are kept -/

/-- A pattern up to that of infinity is no pattern of a NaN. -/
lemma isNaNBits_eq_false {spec : Float.Model.Format} {b : BitVec spec.numBits}
    (h : b.toNat % (2 ^ spec.mantissaBitsWithoutImplicit * 2 ^ spec.exponentBits) ≤
      2 ^ spec.mantissaBitsWithoutImplicit * (2 ^ spec.exponentBits - 1)) :
    isNaNBits b = false := by
  unfold isNaNBits
  rw [decide_eq_false_iff_not]
  rintro ⟨hexponent, hmantissa⟩
  refine hmantissa (BitVec.eq_of_toNat_eq ?_)
  rw [unpackMantissa_def, BitVec.extractLsb'_toNat, Nat.shiftRight_zero, BitVec.toNat_ofNat,
    Nat.zero_mod]
  have hones := congrArg BitVec.toNat hexponent
  rw [unpackExponent_def, BitVec.extractLsb'_toNat, BitVec.neg_one_eq_allOnes,
    BitVec.toNat_allOnes, Nat.shiftRight_eq_div_pow] at hones
  rw [Nat.mod_mul, hones] at h
  omega

/-- The bits of a double that is not a NaN are kept. -/
lemma toNat_toBits_ofBits {n : ℕ} (hlt : n < 2 * Format.double.signBit)
    (h : n % Format.double.signBit ≤ Format.double.infinityBits) :
    (Float.ofBits (UInt64.ofNat n)).toBits.toNat = n := by
  have hsign : Format.double.signBit = 2 ^ 52 * 2 ^ 11 := by decide
  have hinf : Format.double.infinityBits = 2 ^ 52 * (2 ^ 11 - 1) := by decide
  rw [hsign] at hlt h
  rw [hinf] at h
  have hn : (UInt64.ofNat n).toBitVec.toNat = n := by
    rw [UInt64.toNat_toBitVec, UInt64.toNat_ofNat', Nat.mod_eq_of_lt]
    exact hlt
  have hkept : (unpack .binary64 (UInt64.ofNat n).toBitVec).pack .binary64 =
      (UInt64.ofNat n).toBitVec := by
    have hnan : @isNaNBits .binary64 (UInt64.ofNat n).toBitVec = false := by
      refine isNaNBits_eq_false ?_
      rw [hn]
      exact h
    refine (pack_unpack _).trans (if_neg ?_)
    rw [hnan]
    exact Bool.false_ne_true
  change (UInt64.ofBitVec _).toNat = n
  rw [hkept]
  exact hn

/-! ### Finite doubles -/

/-- Rounding gives at most infinity. -/
lemma Format.round_le (f : Format) (num den : ℕ) : f.round num den ≤ f.infinityBits := by
  unfold round
  split
  · exact Nat.zero_le _
  · exact Nat.min_le_left _ _

/-- The bits of a rounded fraction without the sign. -/
lemma Format.roundSigned_mod (f : Format) (negative : Bool) (num den : ℕ) :
    f.roundSigned negative num den % f.signBit = f.round num den := by
  have hle := f.round_le num den
  have hinf := f.infinityBits_lt_signBit
  unfold roundSigned
  cases negative
  · rw [if_neg (by decide), Nat.zero_add, Nat.mod_eq_of_lt (by omega)]
  · rw [if_pos rfl, Nat.add_mod_left, Nat.mod_eq_of_lt (by omega)]

/-- The bits of a rounded fraction fit into the format. -/
lemma Format.roundSigned_lt (f : Format) (negative : Bool) (num den : ℕ) :
    f.roundSigned negative num den < 2 * f.signBit := by
  have hle := f.round_le num den
  have hinf := f.infinityBits_lt_signBit
  unfold roundSigned
  split <;> omega

/-- A fraction below a power of two has a smaller exponent. -/
lemma Format.exponent_le (f : Format) {v : ℚ} {e e' : ℤ} (hlow : f.leadingBit * 2 ^ e ≤ v)
    (hhigh : v < 2 * f.leadingBit * 2 ^ e') : e ≤ e' := by
  by_contra hlt
  have hlead : (0 : ℚ) < f.leadingBit := by exact_mod_cast f.leadingBit_pos
  have hpow : (2 : ℚ) ^ (e' + 1) ≤ 2 ^ e := zpow_le_zpow_right₀ (by norm_num) (by omega)
  rw [zpow_add_one₀ (by norm_num)] at hpow
  have hmul := (mul_le_mul_of_nonneg_left hpow hlead.le).trans hlow
  linarith

/-- A fraction that is scaled down by enough rounds to an integer with at most as many bits as a
significand, or to the next power of two. -/
lemma Format.nearestEven_scale_le (f : Format) {num den : ℕ} {e q : ℤ} (hden : 0 < den)
    (hhigh : (num : ℚ) / den < 2 * f.leadingBit * 2 ^ e) (hq : e ≤ q) :
    nearestEven (scale num den (-q)).1 (scale num den (-q)).2 ≤ 2 * f.leadingBit := by
  have hscaled : ((scale num den (-q)).1 : ℚ) / (scale num den (-q)).2 < 2 * f.leadingBit := by
    rw [scale_eq, zpow_neg, ← div_eq_mul_inv, div_lt_iff₀ (by positivity)]
    refine lt_of_lt_of_le hhigh (mul_le_mul_of_nonneg_left ?_ (by positivity))
    exact zpow_le_zpow_right₀ (by norm_num) hq
  have habs := (abs_le.mp (abs_nearestEven_le (n := (scale num den (-q)).1)
    (scale_den_pos num hden (-q)))).1
  have hlt : (nearestEven (scale num den (-q)).1 (scale num den (-q)).2 : ℚ) <
      (2 * f.leadingBit + 1 : ℕ) := by
    push_cast
    linarith
  exact Nat.lt_succ_iff.mp (by exact_mod_cast hlt)

/-- A natural number that is not too large is rounded to a pattern below that of infinity. -/
lemma Format.round_lt_infinityBits {f : Format} {n : ℕ} {e₀ : ℤ} (hleast : f.leastExponent ≤ e₀)
    (hn : (n : ℚ) < 2 * f.leadingBit * 2 ^ e₀)
    (hroom : ((e₀ - f.leastExponent).toNat + 2) * f.leadingBit < f.infinityBits) :
    f.round n 1 < f.infinityBits := by
  unfold round
  split
  · exact Nat.zero_lt_of_lt hroom
  · rename_i hzero
    obtain ⟨e, hexponent, hlow, hhigh⟩ :=
      exists_exponentFor f (Nat.pos_of_ne_zero hzero) Nat.one_pos
    rw [Nat.cast_one, div_one] at hlow
    rw [hexponent]
    dsimp only
    -- The exponent is small, and the scaled fraction has at most as many bits as a significand.
    have he : e ≤ e₀ := f.exponent_le hlow hn
    have hnearest := f.nearestEven_scale_le Nat.one_pos hhigh (le_max_right f.leastExponent e)
    refine lt_of_le_of_lt (Nat.min_le_right _ _) (lt_of_le_of_lt ?_ hroom)
    rw [Nat.add_mul]
    exact Nat.add_le_add (Nat.mul_le_mul_right _ (by omega)) hnearest

/-- The parts of a rounded fraction are those of its bits. -/
lemma ofDouble_double (negative : Bool) (num den : ℕ) :
    ofDouble (double negative num den) =
      Format.double.decode (Format.double.roundSigned negative num den) := by
  unfold ofDouble double
  rw [toNat_toBits_ofBits (Format.double.roundSigned_lt negative num den)]
  rw [Format.roundSigned_mod]
  exact Format.double.round_le num den

/-- A rounded fraction is a number or infinite. -/
lemma ofDouble_double_ne_nan (negative : Bool) (num den : ℕ) :
    ofDouble (double negative num den) ≠ .nan := by
  rw [ofDouble_double]
  unfold Format.decode
  dsimp only
  rw [Format.roundSigned_mod, if_neg (not_lt.mpr (Format.double.round_le num den))]
  split
  · exact fun h => nomatch h
  · split <;> exact fun h => nomatch h

/-- The double is a number. -/
def FiniteDouble (x : Float) : Prop :=
  ∃ negative m q, ofDouble x = .finite negative m q

/-- A rounded fraction that is not infinite is a number. -/
lemma finiteDouble_of_not_infinite {negative : Bool} {num den : ℕ}
    (h : ∀ sign, ofDouble (double negative num den) ≠ .infinite sign) :
    FiniteDouble (double negative num den) := by
  cases hx : ofDouble (double negative num den) with
  | finite sign m q => exact ⟨sign, m, q, hx⟩
  | infinite sign => exact absurd hx (h sign)
  | nan => exact absurd hx (ofDouble_double_ne_nan negative num den)

/-- A natural number that is not too large is rounded to a number. -/
lemma finiteDouble_of_le (negative : Bool) {n : ℕ} (hn : n ≤ 1 <<< 64) :
    FiniteDouble (double negative n 1) := by
  have hlead : (Format.double.leadingBit : ℚ) = 2 ^ (52 : ℤ) := Format.double.leadingBit_eq
  have hsmall : (n : ℚ) < 2 * Format.double.leadingBit * 2 ^ (12 : ℤ) := by
    have hcast : (n : ℚ) ≤ ((2 ^ 64 : ℕ) : ℚ) := Nat.cast_le.mpr (Nat.one_shiftLeft 64 ▸ hn)
    rw [hlead]
    norm_num at hcast ⊢
    linarith
  have hlt := Format.round_lt_infinityBits (by decide) hsmall (by decide)
  refine finiteDouble_of_not_infinite fun sign hinfinite => ?_
  rw [ofDouble_double] at hinfinite
  unfold Format.decode at hinfinite
  dsimp only at hinfinite
  rw [Format.roundSigned_mod, if_neg (not_lt.mpr (Format.double.round_le n 1)),
    if_neg hlt.ne] at hinfinite
  split at hinfinite <;> cases hinfinite

/-- A decimal is read as a rounded fraction. -/
lemma Decimal.exists_double (d : Decimal) :
    ∃ num den, d.toDouble = Number.double d.negative num den := by
  unfold toDouble
  split
  · exact ⟨0, 1, rfl⟩
  · split
    · exact ⟨1 <<< 1024, 1, rfl⟩
    · split
      · exact ⟨0, 1, rfl⟩
      · exact ⟨_, _, rfl⟩

/-- A finite double is the one with the bits of its parts. -/
lemma eq_ofBits_of_finite {x : Float} {negative : Bool} {m : ℕ} {q : ℤ}
    (h : ofDouble x = .finite negative m q) :
    Format.double.Canonical m q ∧ x = Float.ofBits (UInt64.ofNat
      ((if negative then Format.double.signBit else 0) + Format.double.bits m q)) := by
  have hlt : x.toBits.toNat < 2 * Format.double.signBit :=
    lt_of_lt_of_eq x.toBits.toNat_lt (by decide)
  obtain ⟨hc, hbits⟩ := Format.decode_eq_finite hlt h
  refine ⟨hc, ?_⟩
  rw [← hbits, UInt64.ofNat_toNat, Float.ofBits_toBits]

/-! ### Reading digits back -/

/-- A decimal stands for a finite number of the given parts: it has its sign, and it rounds to its
magnitude. -/
structure Decimal.StandsFor (d : Decimal) (negative : Bool) (m : ℕ) (q : ℤ) : Prop where
  negative : d.negative = negative
  zero : m = 0 → d.digits = 0
  rounds : 0 < m → (Format.double.interval m q).Contains q d.magnitude

/-- A decimal that stands for a double is read as this double. -/
theorem Decimal.toDouble_eq {x : Float} {negative : Bool} {m : ℕ} {q : ℤ}
    (h : ofDouble x = .finite negative m q) {d : Decimal} (hd : d.StandsFor negative m q) :
    d.toDouble = x := by
  obtain ⟨hc, hx⟩ := eq_ofBits_of_finite h
  rw [hx]
  rcases Nat.eq_zero_or_pos m with rfl | hm
  · rw [toDouble_of_zero (hd.zero rfl), hd.negative]
    have hq : q = Format.double.leastExponent :=
      hc.leading.resolve_right (not_le.mpr Format.double.leadingBit_pos)
    rw [Format.bits, hq, sub_self, Int.toNat_zero, Nat.zero_mul, Nat.add_zero]
  · rw [toDouble_of_contains hc hm (hd.rounds hm), hd.negative]

end DialogChart.Number
