import DialogChart.Coordinate
import DialogChart.Proofs.Number.Bits

/-!
# Counts as singles, in order

Ranks start as counts, and siblings are sorted by the order of all singles, which compares
patterns of bits.  Counts keep their order there (`precedes_ofCount`), also where two of them are
rounded to one single and where they are rounded to infinity: rounding is monotone in the fraction
(`Format.round_mono`).
-/

namespace DialogChart.Number

open Float.Model.UnpackedFloat

/-! ### Rounding is monotone -/

/-- The nearest integer of a larger fraction is not smaller. -/
lemma nearestEven_mono {n n' d : ℕ} (hd : 0 < d) (h : n ≤ n') :
    nearestEven n d ≤ nearestEven n' d := by
  by_contra hlt
  -- The integers are at least one apart and each is half away at most, so the fractions agree.
  have hstep : (nearestEven n' d : ℚ) + 1 ≤ nearestEven n d := by exact_mod_cast not_le.mp hlt
  have hlow := (abs_le.mp (abs_nearestEven_le (n := n) hd)).1
  have hhigh := (abs_le.mp (abs_nearestEven_le (n := n') hd)).2
  have hd' : (0 : ℚ) < d := by exact_mod_cast hd
  have hle : (n' : ℚ) ≤ n := by
    rw [← div_le_div_iff_of_pos_right hd']
    linarith
  obtain rfl : n = n' := le_antisymm h (by exact_mod_cast hle)
  exact hlt le_rfl

/-- Scaling keeps the order of the numerators over one denominator. -/
lemma scale_mono {num num' : ℕ} (h : num ≤ num') (den : ℕ) (q : ℤ) :
    (scale num den q).1 ≤ (scale num' den q).1 ∧
      (scale num den q).2 = (scale num' den q).2 := by
  cases q with
  | ofNat k =>
    refine ⟨?_, rfl⟩
    change num <<< k ≤ num' <<< k
    rw [Nat.shiftLeft_eq, Nat.shiftLeft_eq]
    exact Nat.mul_le_mul_right _ h
  | negSucc k => exact ⟨h, rfl⟩

/-- A fraction that is scaled to the length of a significand rounds to an integer of at least this
length. -/
lemma Format.le_nearestEven_scale (f : Format) {num den : ℕ} {e : ℤ} (hden : 0 < den)
    (hlow : f.leadingBit * 2 ^ e ≤ (num : ℚ) / den) :
    f.leadingBit ≤ nearestEven (scale num den (-e)).1 (scale num den (-e)).2 := by
  have hscaled : (f.leadingBit : ℚ) ≤ (scale num den (-e)).1 / (scale num den (-e)).2 := by
    rw [scale_eq, zpow_neg, ← div_eq_mul_inv, le_div_iff₀ (by positivity)]
    exact hlow
  have habs := (abs_le.mp (abs_nearestEven_le (n := (scale num den (-e)).1)
    (scale_den_pos num hden (-e)))).2
  have hlt : (f.leadingBit : ℚ) <
      (nearestEven (scale num den (-e)).1 (scale num den (-e)).2 + 1 : ℕ) := by
    push_cast
    linarith
  exact Nat.lt_succ_iff.mp (by exact_mod_cast hlt)

/-- A larger fraction is rounded to a pattern that is not smaller. -/
theorem Format.round_mono (f : Format) {num num' : ℕ} (h : num ≤ num') {den : ℕ}
    (hden : 0 < den) : f.round num den ≤ f.round num' den := by
  unfold round
  by_cases hnum : num = 0
  · rw [if_pos hnum]
    exact Nat.zero_le _
  rw [if_neg hnum, if_neg (by omega)]
  obtain ⟨e, hexponent, hlow, hhigh⟩ := exists_exponentFor f (Nat.pos_of_ne_zero hnum) hden
  obtain ⟨e', hexponent', hlow', hhigh'⟩ :=
    exists_exponentFor f (show 0 < num' by omega) hden
  have he : e ≤ e' := by
    refine f.exponent_le (hlow.trans ?_) hhigh'
    gcongr
  rw [hexponent, hexponent']
  dsimp only
  refine min_le_min_left _ ?_
  rcases eq_or_lt_of_le (max_le_max_left f.leastExponent he) with heq | hlt
  · -- In one binade the scaled fractions are compared.
    obtain ⟨hfirst, hsecond⟩ := scale_mono h den (-(max f.leastExponent e))
    rw [← heq, ← hsecond]
    exact Nat.add_le_add_left (nearestEven_mono (scale_den_pos num hden _) hfirst) _
  · -- The pattern of the smaller one is at most that of the first number of the next binade.
    have hmax : max f.leastExponent e' = e' := by omega
    rw [hmax] at hlt ⊢
    have hnearest := f.nearestEven_scale_le hden hhigh (le_max_right f.leastExponent e)
    have hnearest' := f.le_nearestEven_scale hden hlow'
    have hbinades : (max f.leastExponent e - f.leastExponent).toNat + 1 ≤
        (e' - f.leastExponent).toNat := by omega
    have hmul := Nat.mul_le_mul_right f.leadingBit hbinades
    rw [Nat.add_mul] at hmul
    omega

/-! ### Singles by their bits -/

/-- The bits of a positive single that is not a NaN are kept. -/
lemma toNat_toBits_ofBits_single {n : ℕ} (h : n ≤ Format.single.infinityBits) :
    (Float32.ofBits (UInt32.ofNat n)).toBits.toNat = n := by
  have hinf : Format.single.infinityBits = 2 ^ 23 * (2 ^ 8 - 1) := by decide
  rw [hinf] at h
  have hn : (UInt32.ofNat n).toBitVec.toNat = n := by
    rw [UInt32.toNat_toBitVec, UInt32.toNat_ofNat', Nat.mod_eq_of_lt]
    omega
  have hkept : (unpack .binary32 (UInt32.ofNat n).toBitVec).pack .binary32 =
      (UInt32.ofNat n).toBitVec := by
    have hnan : @isNaNBits .binary32 (UInt32.ofNat n).toBitVec = false := by
      refine isNaNBits_eq_false ?_
      rw [hn]
      exact (Nat.mod_le _ _).trans h
    refine (pack_unpack _).trans (if_neg ?_)
    rw [hnan]
    exact Bool.false_ne_true
  change (UInt32.ofBitVec _).toNat = n
  rw [hkept]
  exact hn

/-- A count comes in the order of singles where its pattern says. -/
lemma sortKey_ofCount (n : ℕ) :
    sortKey (Coordinate.ofCount n) = Format.single.round n 1 := by
  have hle := Format.single.round_le n 1
  have hbits : (Coordinate.ofCount n : Float32).toBits.toNat = Format.single.round n 1 := by
    change (Float32.ofBits (UInt32.ofNat (Format.single.roundSigned false n 1))).toBits.toNat = _
    rw [show Format.single.roundSigned false n 1 = Format.single.round n 1 from Nat.zero_add _]
    exact toNat_toBits_ofBits_single hle
  unfold sortKey
  dsimp only
  rw [hbits, if_pos (lt_of_le_of_lt hle Format.single.infinityBits_lt_signBit)]

/-- Counts keep their order as singles. -/
theorem precedes_ofCount {m n : ℕ} (h : m ≤ n) :
    Coordinate.precedes (Coordinate.ofCount m : Float32) (Coordinate.ofCount n) = true := by
  change decide (sortKey (Coordinate.ofCount m) ≤ sortKey (Coordinate.ofCount n)) = true
  rw [decide_eq_true_eq, sortKey_ofCount, sortKey_ofCount]
  exact_mod_cast Format.single.round_mono h Nat.one_pos

end DialogChart.Number
