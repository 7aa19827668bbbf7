import DialogChart.Proofs.Number.Bits

/-!
# Singles as rational numbers

Every finite single is a rational number (`value?`).  The operations on singles read the parts of
their operands, compute with them, round and pack the result.  The parts of a finite single are
those of `Format.Canonical` (`unpack_cases`), packing parts of this form keeps them
(`value?_pack_finite`), and rounding brings the parts of a number that is the value of a single
into this form and drops no bit on the way (`roundWithAccuracy_exact`, `round_exact`).
-/

namespace DialogChart.Number

open Float.Model.UnpackedFloat
open Float.Model (UnpackedFloat totalExponent)

/-! ### The value of a single -/

/-- The value of a finite number. -/
def Datum.value? : Datum → Option ℚ
  | .finite negative m q => some ((if negative then -1 else 1) * (m * 2 ^ q))
  | .infinite _ | .nan => none

/-- The value of a finite single. -/
def value? (x : Float32) : Option ℚ :=
  (ofSingle x).value?

/-- A rational number is the value of a single. -/
def IsSingle (v : ℚ) : Prop :=
  ∃ x : Float32, value? x = some v

/-! ### Parts and patterns -/

/-- The sign that a flag stands for. -/
def signOf (negative : Bool) : Sign :=
  if negative then .negative else .positive

/-- The parts in the form on which the operations work. -/
def Datum.unpacked : Datum → UnpackedFloat
  | .finite negative m q =>
    if h : 0 < m then .finite (signOf negative) m q h else .zero (signOf negative)
  | .infinite negative => .infinity (signOf negative)
  | .nan => .notANumber

/-- The parts of a pattern, from its three fields. -/
lemma decode_single (n : ℕ) :
    Format.single.decode n =
      if n / 2 ^ 23 % 2 ^ 8 = 255 then
        if n % 2 ^ 23 = 0 then .infinite (2 ^ 31 ≤ n) else .nan
      else if n / 2 ^ 23 % 2 ^ 8 = 0 then .finite (2 ^ 31 ≤ n) (n % 2 ^ 23) (-149)
      else .finite (2 ^ 31 ≤ n) (2 ^ 23 + n % 2 ^ 23) ((n / 2 ^ 23 % 2 ^ 8 : ℕ) - 150) := by
  have hlead : Format.single.leadingBit = 2 ^ 23 := by decide
  have hsign : Format.single.signBit = 2 ^ 31 := by decide
  have hinf : Format.single.infinityBits = 255 * 2 ^ 23 := by decide
  have hleast : Format.single.leastExponent = -149 := by decide
  have hexponent : n % 2 ^ 31 / 2 ^ 23 = n / 2 ^ 23 % 2 ^ 8 := by omega
  have hfraction : n % 2 ^ 31 % 2 ^ 23 = n % 2 ^ 23 := by omega
  unfold Format.decode
  rw [hlead, hsign, hinf, hleast]
  dsimp only
  rw [hexponent, hfraction]
  by_cases hones : n / 2 ^ 23 % 2 ^ 8 = 255
  · rw [if_pos hones]
    by_cases hzero : n % 2 ^ 23 = 0
    · rw [if_pos hzero, if_neg (by omega), if_pos (by omega)]
    · rw [if_neg hzero, if_pos (by omega)]
  · rw [if_neg hones, if_neg (by omega), if_neg (by omega)]
    by_cases hnone : n / 2 ^ 23 % 2 ^ 8 = 0
    · rw [if_pos hnone, if_pos hnone]
    · rw [if_neg hnone, if_neg hnone]
      congr 1
      omega

/-- The operations read the same parts off a pattern. -/
lemma unpack_eq (b : BitVec 32) :
    unpack .binary32 b = (Format.single.decode b.toNat).unpacked := by
  have hmantissa : (@unpackMantissa .binary32 b).toNat = b.toNat % 2 ^ 23 := by
    rw [unpackMantissa_def, BitVec.extractLsb'_toNat, Nat.shiftRight_zero]
  have hexponent : (@unpackExponent .binary32 b).toNat = b.toNat / 2 ^ 23 % 2 ^ 8 := by
    rw [unpackExponent_def, BitVec.extractLsb'_toNat, Nat.shiftRight_eq_div_pow]
  have hsign : Sign.ofBitVec (@unpackSign .binary32 b) = signOf (2 ^ 31 ≤ b.toNat) := by
    have hbit : (@unpackSign .binary32 b).toNat = b.toNat / 2 ^ 31 % 2 := by
      rw [unpackSign_def, BitVec.extractLsb'_toNat, Nat.shiftRight_eq_div_pow]
      rfl
    have hb : b.toNat < 2 ^ 32 := b.isLt
    have hzero : @unpackSign .binary32 b = 0#1 ↔ ¬ 2 ^ 31 ≤ b.toNat := by
      rw [← BitVec.toNat_inj, hbit, BitVec.toNat_zero]
      omega
    unfold Sign.ofBitVec signOf
    simp only [hzero, decide_eq_true_eq, ite_not]
  have hones : @unpackExponent .binary32 b = -1#_ ↔ b.toNat / 2 ^ 23 % 2 ^ 8 = 255 := by
    rw [← BitVec.toNat_inj, hexponent]
    rfl
  have hnone : @unpackExponent .binary32 b = 0#_ ↔ b.toNat / 2 ^ 23 % 2 ^ 8 = 0 := by
    rw [← BitVec.toNat_inj, hexponent]
    rfl
  have hzero : @unpackMantissa .binary32 b = 0#_ ↔ b.toNat % 2 ^ 23 = 0 := by
    rw [← BitVec.toNat_inj, hmantissa]
    rfl
  rw [decode_single]
  unfold unpack
  dsimp only
  simp only [hones, hnone, hzero, hsign]
  split
  · split <;> rfl
  · split
    · rename_i hleast
      simp only [Datum.unpacked, hexponent, hleast, hmantissa]
      split
      · rename_i hfraction
        rw [dif_neg (by omega)]
      · rename_i hfraction
        rw [dif_pos (by omega)]
        rfl
    · have happend : (1#1 ++ @unpackMantissa .binary32 b).toNat = 2 ^ 23 + b.toNat % 2 ^ 23 := by
        rw [BitVec.toNat_append, ← Nat.shiftLeft_add_eq_or_of_lt (BitVec.isLt _), hmantissa]
        rfl
      simp only [Datum.unpacked, hexponent, happend]
      rw [dif_pos (by omega)]
      rfl

/-- Packing the parts of a finite number keeps them. -/
lemma ofSingle_pack {m : ℕ} {q : ℤ} (h : Format.single.Canonical m q) (negative : Bool) :
    ofSingle (.ofModel (.pack (Datum.finite negative m q).unpacked)) = .finite negative m q := by
  have hfinite := h.finite
  have hsign : Format.single.signBit = 2 ^ 23 * 2 ^ 8 := by decide
  have hinf : Format.single.infinityBits = 2 ^ 23 * (2 ^ 8 - 1) := by decide
  have hdecode := Format.decode_bits h negative
  set n := (if negative then Format.single.signBit else 0) + Format.single.bits m q with hn
  have hlt : n < 2 ^ 32 := by
    rw [hn]
    split <;> omega
  have hmod : n % (2 ^ 23 * 2 ^ 8) ≤ 2 ^ 23 * (2 ^ 8 - 1) := by
    rw [hn]
    split <;> omega
  have hb : (BitVec.ofNat 32 n).toNat = n := by
    rw [BitVec.toNat_ofNat, Nat.mod_eq_of_lt hlt]
  have hkept : pack .binary32 (Datum.finite negative m q).unpacked = BitVec.ofNat 32 n := by
    have hnan : @isNaNBits .binary32 (BitVec.ofNat 32 n) = false := by
      refine isNaNBits_eq_false ?_
      rw [hb]
      exact hmod
    rw [← hdecode]
    nth_rewrite 1 [← hb]
    rw [← unpack_eq]
    refine (pack_unpack _).trans (if_neg ?_)
    rw [hnan]
    exact Bool.false_ne_true
  change Format.single.decode (UInt32.ofBitVec (pack .binary32 _)).toNat = _
  rw [hkept, ← hdecode]
  exact congrArg Format.single.decode hb

/-- The value of a positive number. -/
lemma cast_apply_positive (m : ℕ) (q : ℤ) :
    ((Sign.positive.apply m : ℤ) : ℚ) * 2 ^ q = m * 2 ^ q := by
  rw [Sign.apply, Int.cast_natCast]

/-- The value of a negative number. -/
lemma cast_apply_negative (m : ℕ) (q : ℤ) :
    ((Sign.negative.apply m : ℤ) : ℚ) * 2 ^ q = -(m * 2 ^ q) := by
  rw [Sign.apply, Int.cast_neg, Int.cast_natCast, neg_mul]

/-- The value of a number whose sign is given by a flag. -/
lemma cast_apply_signOf (negative : Bool) (m : ℕ) (q : ℤ) :
    (((signOf negative).apply m : ℤ) : ℚ) * 2 ^ q =
      (if negative then -1 else 1) * (m * 2 ^ q) := by
  cases negative
  · rw [if_neg (by decide), one_mul]
    exact cast_apply_positive m q
  · rw [if_pos rfl, neg_one_mul]
    exact cast_apply_negative m q

/-- Numbers of one sign and magnitude are equal. -/
lemma apply_eq_apply {m n : ℕ} {e q : ℤ} (h : (m : ℚ) * 2 ^ e = n * 2 ^ q) (s : Sign) :
    ((s.apply m : ℤ) : ℚ) * 2 ^ e = ((s.apply n : ℤ) : ℚ) * 2 ^ q := by
  cases s
  · rw [cast_apply_negative, cast_apply_negative, h]
  · rw [cast_apply_positive, cast_apply_positive, h]

/-- The value of a packed zero. -/
lemma value?_pack_zero (s : Sign) : value? (.ofModel (.pack (.zero s))) = some 0 := by
  have hparts : ofSingle (.ofModel (.pack (.zero s))) = .finite (s == .negative) 0 (-149) := by
    cases s <;> decide
  rw [value?, hparts, Datum.value?, Nat.cast_zero, zero_mul, mul_zero]

/-- The value of a packed number. -/
lemma value?_pack_finite {m : ℕ} {q : ℤ} (h : Format.single.Canonical m q) (s : Sign)
    (hm : 0 < m) :
    value? (.ofModel (.pack (.finite s m q hm))) = some (((s.apply m : ℤ) : ℚ) * 2 ^ q) := by
  obtain ⟨negative, rfl⟩ : ∃ negative, signOf negative = s := by
    cases s
    · exact ⟨true, rfl⟩
    · exact ⟨false, rfl⟩
  have hparts := ofSingle_pack h negative
  rw [Datum.unpacked, dif_pos hm] at hparts
  rw [value?, hparts, Datum.value?, cast_apply_signOf]

/-- The parts of a single with a value. -/
lemma unpack_cases {x : Float32} {a : ℚ} (h : value? x = some a) :
    (a = 0 ∧ ∃ s, x.toModel.unpack = .zero s) ∨
      ∃ s m q, ∃ hm : 0 < m, Format.single.Canonical m q ∧ a = (s.apply m : ℤ) * 2 ^ q ∧
        x.toModel.unpack = .finite s m q hm := by
  have hunpack : x.toModel.unpack = (ofSingle x).unpacked := unpack_eq x.toBits.toBitVec
  have hlt : x.toBits.toNat < 2 * Format.single.signBit :=
    lt_of_lt_of_eq x.toBits.toNat_lt (by decide)
  unfold value? at h
  cases hparts : ofSingle x with
  | infinite negative =>
    rw [hparts] at h
    cases h
  | nan =>
    rw [hparts] at h
    cases h
  | finite negative m q =>
    obtain ⟨hcanonical, -⟩ := Format.decode_eq_finite hlt hparts
    rw [hparts] at h hunpack
    have ha := Option.some.inj h
    rw [← cast_apply_signOf] at ha
    rcases Nat.eq_zero_or_pos m with rfl | hm
    · refine .inl ⟨?_, signOf negative, hunpack⟩
      rw [← ha]
      cases negative <;> simp [signOf, Sign.apply]
    · rw [Datum.unpacked, dif_pos hm] at hunpack
      exact .inr ⟨signOf negative, m, q, hm, hcanonical, ha.symm, hunpack⟩

/-! ### Rounding an exact result -/

/-- Shifting out zeros loses nothing. -/
lemma shiftRight_exact (m k : ℕ) :
    ExtendedMantissa.ofMantissaAndAccuracy (m * 2 ^ k) .exact >>> k =
      ExtendedMantissa.ofMantissaAndAccuracy m .exact := by
  change k.repeat ExtendedMantissa.shiftRightOne _ = _
  induction k generalizing m with
  | zero =>
    rw [pow_zero, mul_one]
    rfl
  | succ k ih =>
    rw [Nat.repeat, pow_succ', ← mul_assoc, ih]
    simp [ExtendedMantissa.ofMantissaAndAccuracy, ExtendedMantissa.shiftRightOne]

/-- Trailing zeros add to the logarithm. -/
lemma log2_mul_two_pow {m : ℕ} (hm : 0 < m) (k : ℕ) : (m * 2 ^ k).log2 = m.log2 + k := by
  induction k with
  | zero => simp
  | succ k ih =>
    rw [pow_succ, ← mul_assoc, mul_comm _ 2, Nat.log2_two_mul (by positivity), ih]
    rfl

/-- The exponent that is sought for a number is that of its parts. -/
lemma targetExponent_eq {m : ℕ} {q : ℤ} (h : Format.single.Canonical m q) (hm : 0 < m) (k : ℕ) :
    Float.Model.Format.binary32.targetExponent (totalExponent (m * 2 ^ k) (q - k)) = q := by
  have hlead : Format.single.leadingBit = 2 ^ 23 := by decide
  have hleast : Format.single.leastExponent = -149 := by decide
  have hmin : Float.Model.Format.binary32.minExponent = -149 := by decide
  have hbits : Float.Model.Format.binary32.mantissaBits = 24 := by decide
  obtain ⟨hq, htwice, hleading, -⟩ := h
  rw [hlead] at htwice hleading
  rw [hleast] at hq hleading
  have hlog : m.log2 < 24 := (Nat.log2_lt hm.ne').mpr htwice
  unfold Float.Model.Format.targetExponent totalExponent
  rw [log2_mul_two_pow hm, hmin, hbits]
  push_cast
  rcases hleading with rfl | hleading
  · omega
  · have hlog' : 23 ≤ m.log2 := (Nat.le_log2 hm.ne').mpr hleading
    omega

/-- An exact result is rounded to its parts. -/
lemma roundWithAccuracy_exact {m : ℕ} {q : ℤ} (h : Format.single.Canonical m q) (hm : 0 < m)
    (s : Sign) (k : ℕ) :
    roundWithAccuracy .binary32 s (m * 2 ^ k) (q - k) .exact = .finite s m q hm := by
  have hshift : ∀ j : ℕ, shiftToTargetExponent .binary32 (m * 2 ^ j) (q - j) .exact =
      (ExtendedMantissa.ofMantissaAndAccuracy m .exact, q) := by
    intro j
    unfold shiftToTargetExponent shiftToExponent
    dsimp only
    rw [targetExponent_eq h hm, sub_sub_cancel, Int.toNat_natCast, shiftRight_exact,
      sub_add_cancel]
  have hagain := hshift 0
  rw [pow_zero, mul_one, Nat.cast_zero, sub_zero] at hagain
  have hround : (ExtendedMantissa.ofMantissaAndAccuracy m .exact).roundedMantissa = m := rfl
  unfold roundWithAccuracy
  simp only [hshift k, hround, hagain]
  exact dif_neg hm.ne'

/-- A power of two in terms of a smaller one. -/
lemma zpow_eq_mul_zpow {e q : ℤ} (h : e ≤ q) : (2 : ℚ) ^ q = 2 ^ (q - e).toNat * 2 ^ e := by
  rw [← zpow_natCast, ← zpow_add₀ (by norm_num)]
  congr 1
  omega

/-- Two forms of one number differ by trailing zeros. -/
lemma eq_mul_two_pow {m n : ℕ} {e q : ℤ} (h : (m : ℚ) * 2 ^ e = n * 2 ^ q) (hle : e ≤ q) :
    m = n * 2 ^ (q - e).toNat := by
  rw [zpow_eq_mul_zpow hle, ← mul_assoc] at h
  have hcancel := mul_right_cancel₀ (zpow_ne_zero e (by norm_num)) h
  exact_mod_cast hcancel

/-- An exact result is rounded to its parts, whatever exponent it comes with. -/
lemma round_exact {m n : ℕ} {e q : ℤ} (hc : Format.single.Canonical m q) (hm : 0 < m)
    (h : (n : ℚ) * 2 ^ e = m * 2 ^ q) (s : Sign) :
    UnpackedFloat.round .binary32 s n e = .finite s m q hm := by
  unfold UnpackedFloat.round decreaseExponent
  dsimp only
  rcases le_total e q with hle | hle
  · obtain ⟨k, rfl⟩ : ∃ k : ℕ, e = q - k := ⟨(q - e).toNat, by omega⟩
    have hn := eq_mul_two_pow h hle
    rw [sub_sub_cancel, Int.toNat_natCast] at hn
    have hshift : (q - k - q).toNat = 0 := by omega
    rw [hn, targetExponent_eq hc hm, hshift, Nat.shiftLeft_zero, Nat.cast_zero, sub_zero]
    exact roundWithAccuracy_exact hc hm s k
  · obtain ⟨k, rfl⟩ : ∃ k : ℕ, e = q + k := ⟨(e - q).toNat, by omega⟩
    have hmn := eq_mul_two_pow h.symm hle
    rw [add_sub_cancel_left, Int.toNat_natCast] at hmn
    have hn : 0 < n := Nat.pos_of_mul_pos_right (hmn ▸ hm)
    have htotal : totalExponent n (q + k) = totalExponent (m * 2 ^ 0) (q - (0 : ℕ)) := by
      unfold totalExponent
      rw [pow_zero, mul_one, hmn, log2_mul_two_pow hn]
      push_cast
      ring
    rw [htotal, targetExponent_eq hc hm, add_sub_cancel_left, Int.toNat_natCast,
      add_sub_cancel_right, Nat.shiftLeft_eq, ← hmn]
    have hround := roundWithAccuracy_exact hc hm s 0
    rw [pow_zero, mul_one, Nat.cast_zero, sub_zero] at hround
    exact hround

/-- A signed significand whose number is the value of a single is rounded to this value. -/
lemma value?_pack_normalize {m e : ℤ} (h : IsSingle ((m : ℚ) * 2 ^ e)) (z : Sign) :
    value? (.ofModel (.pack (UnpackedFloat.normalize .binary32 m e z))) =
      some ((m : ℚ) * 2 ^ e) := by
  obtain ⟨x, hx⟩ := h
  have hpow : (0 : ℚ) < 2 ^ e := by positivity
  unfold UnpackedFloat.normalize
  rcases unpack_cases hx with ⟨hzero, -⟩ | ⟨s, n, q, hn, hc, hvalue, -⟩
  · have hm : m = 0 := by
      have hcast := (mul_eq_zero.mp hzero).resolve_right hpow.ne'
      exact_mod_cast hcast
    rw [hm, Int.compare_eq_eq.mpr rfl]
    dsimp only
    rw [value?_pack_zero, Int.cast_zero, zero_mul]
  · have hnpos : (0 : ℚ) < n * 2 ^ q := by positivity
    rw [hvalue]
    cases s with
    | positive =>
      rw [cast_apply_positive] at hvalue
      have hm : 0 < m := by
        have hcast : (0 : ℚ) < m := pos_of_mul_pos_left (hvalue ▸ hnpos) hpow.le
        exact_mod_cast hcast
      have hnat : ((m.toNat : ℕ) : ℚ) = m := by
        rw [← Int.cast_natCast, Int.toNat_of_nonneg hm.le]
      rw [Int.compare_eq_gt.mpr hm]
      dsimp only
      rw [round_exact hc hn (hnat.symm ▸ hvalue), value?_pack_finite hc]
    | negative =>
      rw [cast_apply_negative] at hvalue
      have hm : m < 0 := by
        have hcast : (m : ℚ) < 0 := by
          by_contra hge
          have hnonneg : (0 : ℚ) ≤ m * 2 ^ e := mul_nonneg (not_lt.mp hge) hpow.le
          linarith
        exact_mod_cast hcast
      have hnat : (((-m).toNat : ℕ) : ℚ) = -m := by
        rw [← Int.cast_natCast, Int.toNat_of_nonneg (by omega), Int.cast_neg]
      have hmagnitude : (((-m).toNat : ℕ) : ℚ) * 2 ^ e = n * 2 ^ q := by
        rw [hnat]
        linarith
      rw [Int.compare_eq_lt.mpr hm]
      dsimp only
      rw [round_exact hc hn hmagnitude, value?_pack_finite hc]

end DialogChart.Number
