import DialogChart.Number.Decimal
import Mathlib.Algebra.Order.Field.Power
import Mathlib.Tactic.FieldSimp
import Mathlib.Tactic.GCongr
import Mathlib.Tactic.Linarith
import Mathlib.Tactic.NormNum
import Mathlib.Tactic.Positivity
import Mathlib.Tactic.Ring

/-!
# Rounding to a binary format

Rounding is correct in the following sense.  Let `m · 2 ^ q` be a number of the format, in the form
in which its bits are read (`Format.Canonical`).  A fraction that lies in the interval of the reals
that round to this number is rounded to the bits of the number (`Format.round_of_contains`).

The exponent that is chosen for a fraction is the one that leaves the right number of bits before
the point (`Format.exists_exponentFor`).  It differs from `q` only below a power of two, where the
fraction lies in the binade below; there the rounded integer carries over into the right bits.
-/

namespace DialogChart.Number

/-! ### Scaled fractions -/

/-- A scaled fraction has a positive denominator. -/
lemma scale_den_pos (num : ℕ) {den : ℕ} (hden : 0 < den) (q : ℤ) : 0 < (scale num den q).2 := by
  cases q with
  | ofNat k => exact hden
  | negSucc k =>
    change 0 < den <<< (k + 1)
    rw [Nat.shiftLeft_eq]
    positivity

/-- Scaling multiplies a fraction by a power of two. -/
lemma scale_eq (num den : ℕ) (q : ℤ) :
    ((scale num den q).1 : ℚ) / (scale num den q).2 = num / den * 2 ^ q := by
  cases q with
  | ofNat k =>
    change ((num <<< k : ℕ) : ℚ) / den = num / den * 2 ^ (k : ℤ)
    rw [Nat.shiftLeft_eq, zpow_natCast]
    push_cast
    ring
  | negSucc k =>
    change (num : ℚ) / ((den <<< (k + 1) : ℕ) : ℚ) = num / den * 2 ^ (Int.negSucc k)
    rw [Nat.shiftLeft_eq, zpow_negSucc]
    push_cast
    rw [div_mul_eq_div_div]
    rfl

/-! ### The nearest integer -/

/-- An integer that is less than half away from a fraction, or half away and even, is the nearest
integer. -/
lemma nearestEven_eq {n d k : ℕ} (hd : 0 < d)
    (hlow : 2 * (k * d) < 2 * n + d ∨ (2 * (k * d) = 2 * n + d ∧ k % 2 = 0))
    (hhigh : 2 * n < 2 * (k * d) + d ∨ (2 * n = 2 * (k * d) + d ∧ k % 2 = 0)) :
    nearestEven n d = k := by
  have hdiv : d * (n / d) + n % d = n := Nat.div_add_mod n d
  have hmod : n % d < d := Nat.mod_lt n hd
  have hle : n / d ≤ k := by
    by_contra hlt
    have hmul : d * (k + 1) ≤ d * (n / d) := Nat.mul_le_mul_left d (by omega)
    have hexpand : d * (k + 1) = k * d + d := by ring
    omega
  have hge : k ≤ n / d + 1 := by
    by_contra hlt
    have hmul : d * (n / d + 2) ≤ d * k := Nat.mul_le_mul_left d (by omega)
    have hexpand : d * (n / d + 2) = d * (n / d) + 2 * d := by ring
    have hcomm : d * k = k * d := Nat.mul_comm d k
    omega
  unfold nearestEven
  dsimp only
  rcases Nat.lt_or_ge (n / d) k with hlt | hge'
  · -- The integer is the one above the fraction.
    obtain rfl : k = n / d + 1 := by omega
    have hexpand : (n / d + 1) * d = d * (n / d) + d := by ring
    rw [if_pos]
    omega
  · obtain rfl : k = n / d := by omega
    have hcomm : n / d * d = d * (n / d) := Nat.mul_comm _ _
    rw [if_neg]
    omega

/-- The nearest integer of a fraction, in terms of its value. -/
lemma nearestEven_eq_of_abs {n d k : ℕ} (hd : 0 < d)
    (h : |(n : ℚ) / d - k| < 1 / 2 ∨ (|(n : ℚ) / d - k| ≤ 1 / 2 ∧ k % 2 = 0)) :
    nearestEven n d = k := by
  have hd' : (0 : ℚ) < d := by exact_mod_cast hd
  have hn : (n : ℚ) = n / d * d := by field_simp
  have hlow : ∀ y : ℚ, y = n / d - k → 2 * (n : ℚ) = 2 * ((k : ℚ) * d) + 2 * y * d := by
    rintro y rfl
    rw [hn]
    field_simp
    ring
  rcases h with h | ⟨h, hk⟩
  · rw [abs_lt] at h
    have heq := hlow _ rfl
    refine nearestEven_eq hd (.inl ?_) (.inl ?_)
    · have : 2 * ((k : ℚ) * d) < 2 * n + d := by nlinarith [h.1]
      exact_mod_cast this
    · have : 2 * (n : ℚ) < 2 * (k * d) + d := by nlinarith [h.2]
      exact_mod_cast this
  · rw [abs_le] at h
    have heq := hlow _ rfl
    have h₁ : 2 * ((k : ℚ) * d) ≤ 2 * n + d := by nlinarith [h.1]
    have h₂ : 2 * (n : ℚ) ≤ 2 * (k * d) + d := by nlinarith [h.2]
    have h₁' : 2 * (k * d) ≤ 2 * n + d := by exact_mod_cast h₁
    have h₂' : 2 * n ≤ 2 * (k * d) + d := by exact_mod_cast h₂
    refine nearestEven_eq hd ?_ ?_
    · exact (Nat.lt_or_eq_of_le h₁').imp_right fun heq => ⟨heq, hk⟩
    · exact (Nat.lt_or_eq_of_le h₂').imp_right fun heq => ⟨heq, hk⟩

/-- The nearest integer is at most half away. -/
lemma abs_nearestEven_le {n d : ℕ} (hd : 0 < d) : |(n : ℚ) / d - nearestEven n d| ≤ 1 / 2 := by
  have hd' : (0 : ℚ) < d := by exact_mod_cast hd
  have hdiv : d * (n / d) + n % d = n := Nat.div_add_mod n d
  have hmod : n % d < d := Nat.mod_lt n hd
  have hbounds : 2 * (nearestEven n d * d) ≤ 2 * n + d ∧ 2 * n ≤ 2 * (nearestEven n d * d) + d := by
    unfold nearestEven
    dsimp only
    have hcomm : n / d * d = d * (n / d) := Nat.mul_comm _ _
    have hexpand : (n / d + 1) * d = d * (n / d) + d := by ring
    split <;> omega
  have h₁ : 2 * ((nearestEven n d : ℚ) * d) ≤ 2 * n + d := by exact_mod_cast hbounds.1
  have h₂ : 2 * (n : ℚ) ≤ 2 * (nearestEven n d * d) + d := by exact_mod_cast hbounds.2
  rw [abs_le, le_sub_iff_add_le, sub_le_iff_le_add, le_div_iff₀ hd', div_le_iff₀ hd']
  constructor <;> nlinarith

/-! ### The exponent of a fraction -/

namespace Format

variable {f : Format}

/-- The weight of the leading bit as a power of two. -/
lemma leadingBit_eq (f : Format) : (f.leadingBit : ℚ) = 2 ^ ((f.precision - 1 : ℕ) : ℤ) := by
  rw [leadingBit, Nat.one_shiftLeft, zpow_natCast]
  push_cast
  rfl

/-- The leading bit has a positive weight. -/
lemma leadingBit_pos (f : Format) : 0 < f.leadingBit := by
  rw [leadingBit, Nat.one_shiftLeft]
  positivity

/-- The logarithm of a natural number, as bounds by powers of two. -/
lemma zpow_log2_le {n : ℕ} (hn : 0 < n) :
    (2 : ℚ) ^ (n.log2 : ℤ) ≤ n ∧ (n : ℚ) < 2 ^ ((n.log2 : ℤ) + 1) := by
  have hle := Nat.log2_self_le hn.ne'
  have hlt := Nat.lt_log2_self (n := n)
  refine ⟨?_, ?_⟩
  · rw [zpow_natCast]
    exact_mod_cast hle
  · have hcast : ((n.log2 : ℤ) + 1) = ((n.log2 + 1 : ℕ) : ℤ) := by push_cast; ring
    rw [hcast, zpow_natCast]
    exact_mod_cast hlt

/-- A positive fraction lies between two powers of two around the difference of the logarithms. -/
lemma zpow_lt_div_lt {num den : ℕ} (hnum : 0 < num) (hden : 0 < den) :
    (2 : ℚ) ^ ((num.log2 : ℤ) - den.log2 - 1) < num / den ∧
      (num : ℚ) / den < 2 ^ ((num.log2 : ℤ) - den.log2 + 1) := by
  obtain ⟨hnum₁, hnum₂⟩ := zpow_log2_le hnum
  obtain ⟨hden₁, hden₂⟩ := zpow_log2_le hden
  have hden' : (0 : ℚ) < den := by exact_mod_cast hden
  constructor
  · rw [lt_div_iff₀ hden']
    calc (2 : ℚ) ^ ((num.log2 : ℤ) - den.log2 - 1) * den
        < 2 ^ ((num.log2 : ℤ) - den.log2 - 1) * 2 ^ ((den.log2 : ℤ) + 1) := by gcongr
      _ = 2 ^ (num.log2 : ℤ) := by
        rw [← zpow_add₀ (by norm_num)]
        congr 1
        ring
      _ ≤ num := hnum₁
  · rw [div_lt_iff₀ hden']
    calc (num : ℚ) < 2 ^ ((num.log2 : ℤ) + 1) := hnum₂
      _ = 2 ^ ((num.log2 : ℤ) - den.log2 + 1) * 2 ^ (den.log2 : ℤ) := by
        rw [← zpow_add₀ (by norm_num)]
        congr 1
        ring
      _ ≤ 2 ^ ((num.log2 : ℤ) - den.log2 + 1) * den := by gcongr

/-- The exponent for a positive fraction leaves the right number of bits before the point, unless
it would fall below the least exponent. -/
lemma exists_exponentFor (f : Format) {num den : ℕ} (hnum : 0 < num) (hden : 0 < den) :
    ∃ e, f.exponentFor num den = max f.leastExponent e ∧
      (f.leadingBit : ℚ) * 2 ^ e ≤ num / den ∧ (num : ℚ) / den < 2 * f.leadingBit * 2 ^ e := by
  obtain ⟨hlow, hhigh⟩ := zpow_lt_div_lt hnum hden
  set guess : ℤ := (num.log2 : ℤ) - den.log2 - (f.precision - 1 : ℕ) with hguess
  have hpos : (0 : ℚ) < 2 ^ guess := by positivity
  have hd := scale_den_pos num hden (-guess)
  have hd' : (0 : ℚ) < (scale num den (-guess)).2 := by exact_mod_cast hd
  have hscale := scale_eq num den (-guess)
  have hlow' : (f.leadingBit : ℚ) * 2 ^ (guess - 1) < num / den := by
    rw [leadingBit_eq, ← zpow_add₀ (by norm_num)]
    refine lt_of_eq_of_lt ?_ hlow
    congr 1
    rw [hguess]
    ring
  have hhigh' : (num : ℚ) / den < 2 * f.leadingBit * 2 ^ guess := by
    refine lt_of_lt_of_eq hhigh ?_
    rw [leadingBit_eq, ← zpow_one_add₀ (by norm_num), ← zpow_add₀ (by norm_num)]
    congr 1
    rw [hguess]
    ring
  -- The guess is right, or one too large.
  have hcompare : (scale num den (-guess)).1 < (scale num den (-guess)).2 * f.leadingBit ↔
      (num : ℚ) / den < f.leadingBit * 2 ^ guess := by
    rw [← Nat.cast_lt (α := ℚ), Nat.cast_mul, mul_comm, ← div_lt_iff₀ hd', hscale, zpow_neg,
      ← div_eq_mul_inv, div_lt_iff₀ hpos]
  unfold exponentFor
  rw [← hguess]
  dsimp only
  by_cases hlt : (scale num den (-guess)).1 < (scale num den (-guess)).2 * f.leadingBit
  · refine ⟨guess - 1, by rw [if_pos hlt], hlow'.le, ?_⟩
    refine lt_of_lt_of_eq (hcompare.mp hlt) ?_
    rw [zpow_sub_one₀ (by norm_num)]
    ring
  · exact ⟨guess, by rw [if_neg hlt], not_lt.mp (mt hcompare.mpr hlt), hhigh'⟩

/-! ### Canonical numbers -/

/-- The bits of the magnitude `m · 2 ^ q`. -/
def bits (f : Format) (m : ℕ) (q : ℤ) : ℕ :=
  (q - f.leastExponent).toNat * f.leadingBit + m

/-- The significand and the exponent of a finite number, as they are read from its bits. -/
structure Canonical (f : Format) (m : ℕ) (q : ℤ) : Prop where
  least : f.leastExponent ≤ q
  lt_twice : m < 2 * f.leadingBit
  leading : q = f.leastExponent ∨ f.leadingBit ≤ m
  finite : f.bits m q < f.infinityBits

/-- The bits of a finite number, from its parts. -/
lemma decode_eq_finite {pattern : ℕ} (hpattern : pattern < 2 * f.signBit) {negative : Bool}
    {m : ℕ} {q : ℤ} (h : f.decode pattern = .finite negative m q) :
    f.Canonical m q ∧ pattern = (if negative then f.signBit else 0) + f.bits m q := by
  have hlead := f.leadingBit_pos
  have hsign : pattern =
      (if f.signBit ≤ pattern then f.signBit else 0) + pattern % f.signBit := by
    split
    · rw [Nat.mod_eq_sub_mod ‹_›, Nat.mod_eq_of_lt (by omega)]
      omega
    · rw [Nat.mod_eq_of_lt (by omega)]
      omega
  have hmagnitude := Nat.div_add_mod (pattern % f.signBit) f.leadingBit
  have hfraction := Nat.mod_lt (pattern % f.signBit) hlead
  unfold decode at h
  dsimp only at h
  split at h
  · cases h
  split at h
  · cases h
  split at h
  · -- Below the least power of two with a leading bit.
    rename_i hnan hinf hexp
    cases h
    rw [hexp, Nat.mul_zero, Nat.zero_add] at hmagnitude
    have hbits : f.bits (pattern % f.signBit % f.leadingBit) f.leastExponent =
        pattern % f.signBit := by
      rw [bits, sub_self, Int.toNat_zero, Nat.zero_mul, Nat.zero_add, hmagnitude]
    refine ⟨⟨le_refl _, by omega, .inl rfl, by omega⟩, ?_⟩
    rw [hbits]
    simpa using hsign
  · rename_i hnan hinf hexp
    cases h
    have hbits : f.bits (f.leadingBit + pattern % f.signBit % f.leadingBit)
        (f.leastExponent + (pattern % f.signBit / f.leadingBit - 1 : ℕ)) =
        pattern % f.signBit := by
      have hone : (pattern % f.signBit / f.leadingBit - 1) * f.leadingBit + f.leadingBit =
          f.leadingBit * (pattern % f.signBit / f.leadingBit) := by
        rw [← Nat.succ_mul, Nat.succ_eq_add_one, Nat.sub_add_cancel (Nat.pos_of_ne_zero hexp),
          Nat.mul_comm]
      rw [bits, add_sub_cancel_left, Int.toNat_natCast]
      omega
    refine ⟨⟨le_add_of_nonneg_right (Int.natCast_nonneg _), by omega,
      .inr (Nat.le_add_right _ _), by omega⟩, ?_⟩
    rw [hbits]
    simpa using hsign

/-- The pattern of infinity leaves the sign bit free. -/
lemma infinityBits_lt_signBit (f : Format) : f.infinityBits < f.signBit := by
  have hlead := f.leadingBit_pos
  have hpow : 0 < 2 ^ f.exponentBits := Nat.two_pow_pos _
  rw [infinityBits, signBit, Nat.one_shiftLeft, Nat.shiftLeft_eq, Nat.mul_comm f.leadingBit]
  exact Nat.mul_lt_mul_of_pos_right (by omega) hlead

/-- The parts of a finite number, from its bits. -/
lemma decode_bits {m : ℕ} {q : ℤ} (h : f.Canonical m q) (negative : Bool) :
    f.decode ((if negative then f.signBit else 0) + f.bits m q) = .finite negative m q := by
  have hlead := f.leadingBit_pos
  have hfinite := h.finite
  have hinf := f.infinityBits_lt_signBit
  have hmod : ((if negative then f.signBit else 0) + f.bits m q) % f.signBit = f.bits m q := by
    cases negative
    · rw [if_neg (by decide), Nat.zero_add, Nat.mod_eq_of_lt (by omega)]
    · rw [if_pos rfl, Nat.add_mod_left, Nat.mod_eq_of_lt (by omega)]
  have hsign : decide (f.signBit ≤ (if negative then f.signBit else 0) + f.bits m q) =
      negative := by
    cases negative
    · simp only [Bool.false_eq_true, if_false, decide_eq_false_iff_not]
      omega
    · simp
  unfold decode
  dsimp only
  rw [hmod, hsign, if_neg (by omega), if_neg (by omega)]
  rcases Nat.lt_or_ge m f.leadingBit with hlt | hge
  · -- The significand has no leading bit, so the exponent is the least one.
    obtain rfl : q = f.leastExponent := h.leading.resolve_right (by omega)
    have hbits : f.bits m f.leastExponent = m := by simp [bits]
    rw [hbits, if_pos (Nat.div_eq_of_lt hlt), Nat.mod_eq_of_lt hlt]
  · obtain ⟨rest, rfl⟩ := Nat.exists_eq_add_of_le hge
    have hrest : rest < f.leadingBit := by
      have htwice := h.lt_twice
      omega
    have hbits : f.bits (f.leadingBit + rest) q =
        rest + f.leadingBit * ((q - f.leastExponent).toNat + 1) := by
      rw [bits]
      ring
    have hleast := h.least
    rw [hbits, Nat.add_mul_div_left _ _ hlead, Nat.add_mul_mod_self_left,
      Nat.div_eq_of_lt hrest, Nat.mod_eq_of_lt hrest, if_neg (by omega)]
    congr 1
    omega

end Format

/-! ### The interval of a number -/

/-- The interval holds a rational number, where `q` is the exponent of its unit. -/
def Interval.Contains (i : Interval) (q : ℤ) (x : ℚ) : Prop :=
  if i.closed then (i.low : ℚ) * 2 ^ (q - 2) ≤ x ∧ x ≤ i.high * 2 ^ (q - 2)
  else (i.low : ℚ) * 2 ^ (q - 2) < x ∧ x < i.high * 2 ^ (q - 2)

/-- The bounds of an interval, with the ends. -/
lemma Interval.Contains.bounds {i : Interval} {q : ℤ} {x : ℚ} (h : i.Contains q x) :
    (i.low : ℚ) * 2 ^ (q - 2) ≤ x ∧ x ≤ i.high * 2 ^ (q - 2) := by
  unfold Contains at h
  split at h
  · exact h
  · exact ⟨h.1.le, h.2.le⟩

namespace Format

variable {f : Format} {m : ℕ} {q : ℤ} {x : ℚ}

/-- A unit is four quarters. -/
lemma zpow_eq_quarters (q : ℤ) : (2 : ℚ) ^ q = 4 * 2 ^ (q - 2) := by
  rw [zpow_sub₀ (by norm_num)]
  field_simp
  norm_num

/-- The lower end is at most half a unit below the number. -/
lemma le_cast_low (hm : 0 < m) (q : ℤ) : (4 : ℚ) * m - 2 ≤ (f.interval m q).low := by
  simp only [interval]
  rw [Nat.cast_sub (by split <;> omega)]
  push_cast
  split <;> linarith

/-- The upper end is half a unit above the number. -/
lemma cast_high (f : Format) (m : ℕ) (q : ℤ) : ((f.interval m q).high : ℚ) = 4 * m + 2 := by
  simp only [interval]
  push_cast
  rfl

/-- A number that rounds to `m · 2 ^ q` is at most half a unit away, and less than that if `m` is
odd. -/
lemma abs_le_of_contains (hm : 0 < m) (h : (f.interval m q).Contains q x) :
    |x * 2 ^ (-q) - m| < 1 / 2 ∨ (|x * 2 ^ (-q) - m| ≤ 1 / 2 ∧ m % 2 = 0) := by
  have hunit : (0 : ℚ) < 2 ^ (q - 2) := by positivity
  have hx : x * 2 ^ (-q) = x / 2 ^ (q - 2) / 4 := by
    rw [zpow_sub₀ (by norm_num), zpow_neg]
    field_simp
    norm_num
  have hlow := le_cast_low (f := f) hm q
  unfold Interval.Contains at h
  rw [cast_high] at h
  rw [hx]
  split at h
  · rename_i hclosed
    refine .inr ⟨?_, by simpa [interval] using hclosed⟩
    rw [← le_div_iff₀ hunit, ← div_le_iff₀ hunit] at h
    rw [abs_le]
    constructor <;> linarith [h.1, h.2]
  · refine .inl ?_
    rw [← lt_div_iff₀ hunit, ← div_lt_iff₀ hunit] at h
    rw [abs_lt]
    constructor <;> linarith [h.1, h.2]

/-- Below a power of two the unit is halved, so a number that rounds to the power of two from
below is at most half of the smaller unit away. -/
lemma abs_le_of_contains_of_lt (h : (f.interval f.leadingBit q).Contains q x)
    (hq : f.leastExponent < q) (hx : x < f.leadingBit * 2 ^ q) :
    |x * 2 ^ (-(q - 1)) - (2 * f.leadingBit : ℕ)| ≤ 1 / 2 := by
  have hunit : (0 : ℚ) < 2 ^ (q - 2) := by positivity
  have hlead := f.leadingBit_pos
  have hlow : ((f.interval f.leadingBit q).low : ℚ) = 4 * f.leadingBit - 1 := by
    simp only [interval]
    rw [if_pos ⟨trivial, hq⟩, Nat.cast_sub (by omega)]
    push_cast
    rfl
  have hscale : x * 2 ^ (-(q - 1)) = x / 2 ^ (q - 2) / 2 := by
    rw [zpow_neg, zpow_sub₀ (by norm_num), zpow_sub₀ (by norm_num)]
    field_simp
  have hbounds := h.bounds.1
  rw [hlow, ← le_div_iff₀ hunit] at hbounds
  have hx' : x / 2 ^ (q - 2) < 4 * f.leadingBit := by
    rw [div_lt_iff₀ hunit]
    linarith [zpow_eq_quarters q ▸ hx]
  rw [hscale, abs_le]
  push_cast
  constructor <;> linarith

/-- The binade of a number that rounds to `m · 2 ^ q`: it is that of `q`, or the one below if `m`
is the smallest significand of its binade. -/
lemma exponent_of_contains (hc : f.Canonical m q) (hm : 0 < m)
    (h : (f.interval m q).Contains q x) {e : ℤ} (hlow : (f.leadingBit : ℚ) * 2 ^ e ≤ x)
    (hhigh : x < 2 * f.leadingBit * 2 ^ e) :
    max f.leastExponent e = q ∨
      (max f.leastExponent e = q - 1 ∧ f.leastExponent < q ∧ m = f.leadingBit ∧
        x < f.leadingBit * 2 ^ q) := by
  have hunit : (0 : ℚ) < 2 ^ (q - 2) := by positivity
  have hq := zpow_eq_quarters q
  have hlead : (1 : ℚ) ≤ f.leadingBit := by exact_mod_cast f.leadingBit_pos
  have htwice : (m : ℚ) + 1 ≤ 2 * f.leadingBit := by exact_mod_cast hc.lt_twice
  obtain ⟨hbelow, habove⟩ := h.bounds
  rw [cast_high] at habove
  have hbelow' : (4 * m - 2 : ℚ) * 2 ^ (q - 2) ≤ x :=
    (mul_le_mul_of_nonneg_right (le_cast_low hm q) hunit.le).trans hbelow
  -- The binade cannot be a higher one.
  have he : e ≤ q := by
    by_contra hlt
    have hpow : (2 : ℚ) ^ (q + 1) ≤ 2 ^ e := zpow_le_zpow_right₀ (by norm_num) (by omega)
    rw [zpow_add_one₀ (by norm_num), hq] at hpow
    have hx : (f.leadingBit : ℚ) * (4 * 2 ^ (q - 2) * 2) ≤ x :=
      (mul_le_mul_of_nonneg_left hpow (by positivity)).trans hlow
    nlinarith
  rcases hc.leading with hleast | hleading
  · left
    omega
  have hleading' : (f.leadingBit : ℚ) ≤ m := by exact_mod_cast hleading
  rcases eq_or_lt_of_le hc.least with hleast | hleast
  · left
    omega
  have he' : q - 1 ≤ e := by
    by_contra hlt
    have hpow : (2 : ℚ) ^ e ≤ 2 ^ (q - 2) := zpow_le_zpow_right₀ (by norm_num) (by omega)
    have hx : x < 2 * f.leadingBit * 2 ^ (q - 2) :=
      lt_of_lt_of_le hhigh (mul_le_mul_of_nonneg_left hpow (by positivity))
    nlinarith
  rcases eq_or_lt_of_le he with heq | hlt
  · left
    omega
  · right
    have heq : e = q - 1 := by omega
    have hx : x < f.leadingBit * 2 ^ q := by
      refine lt_of_lt_of_eq hhigh ?_
      rw [heq, zpow_sub_one₀ (by norm_num)]
      ring
    refine ⟨by omega, hleast, ?_, hx⟩
    by_contra hne
    have hsucc : (f.leadingBit : ℚ) + 1 ≤ m := by
      exact_mod_cast Nat.lt_of_le_of_ne hleading (Ne.symm hne)
    rw [hq] at hx
    nlinarith

/-- A fraction that rounds to a positive number of the format is rounded to its bits. -/
theorem round_of_contains (hc : f.Canonical m q) (hm : 0 < m) {num den : ℕ} (hden : 0 < den)
    (h : (f.interval m q).Contains q ((num : ℚ) / den)) : f.round num den = f.bits m q := by
  have hden' : (0 : ℚ) < den := by exact_mod_cast hden
  have hlow : 0 < (f.interval m q).low := by
    simp only [interval]
    split <;> omega
  have hnum : 0 < num := by
    have hlow' : (0 : ℚ) < (f.interval m q).low := by exact_mod_cast hlow
    have hpos : (0 : ℚ) < num / den := lt_of_lt_of_le (by positivity) h.bounds.1
    rcases Nat.eq_zero_or_pos num with rfl | hnum
    · simp at hpos
    · exact hnum
  obtain ⟨e, hexponent, hlead, hhigh⟩ := exists_exponentFor f hnum hden
  unfold round
  rw [if_neg hnum.ne', hexponent]
  dsimp only
  rcases exponent_of_contains hc hm h hlead hhigh with heq | ⟨heq, hleast, rfl, hx⟩
  · rw [heq]
    have habs := abs_le_of_contains hm h
    rw [← scale_eq] at habs
    rw [nearestEven_eq_of_abs (scale_den_pos num hden _) habs]
    exact Nat.min_eq_right hc.finite.le
  · rw [heq]
    have habs := abs_le_of_contains_of_lt h hleast hx
    rw [← scale_eq] at habs
    rw [nearestEven_eq_of_abs (scale_den_pos num hden _) (.inr ⟨habs, by omega⟩)]
    have hbits : (q - 1 - f.leastExponent).toNat * f.leadingBit + 2 * f.leadingBit =
        f.bits f.leadingBit q := by
      have hsucc : (q - f.leastExponent).toNat = (q - 1 - f.leastExponent).toNat + 1 := by omega
      rw [bits, hsucc]
      ring
    rw [hbits]
    exact Nat.min_eq_right hc.finite.le

end Format

end DialogChart.Number
