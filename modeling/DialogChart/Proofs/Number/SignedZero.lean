import DialogChart.Proofs.Number.CountOrder

/-!
# Signed zeros

Two singles that are equal as numbers are the same single, unless one of them is zero and the other
one is zero with a minus sign (`beq_iff`).  The second half of this file is about where such a sign
comes from: numbers without a sign stay without one when they are multiplied (`PlainDouble.mul`) and
when a double is rounded to a single (`PlainDouble.narrow`).
-/

namespace DialogChart.Number

open Float.Model.UnpackedFloat
open Float.Model (UnpackedFloat)

/-! ### Equality of singles -/

/-- Zero with a minus sign. -/
def negativeZero : Float32 :=
  Float32.ofBits 0x80000000

/-- A single is zero, with or without a minus sign. -/
def IsZero (x : Float32) : Prop :=
  x = 0 ∨ x = negativeZero

/-- A single is made of its parts. -/
lemma ofModel_pack_unpack (x : Float32) : Float32.ofModel (.pack x.toModel.unpack) = x :=
  Float32.ofBits_toBits x

/-- Singles with the same parts are the same. -/
lemma eq_of_unpack_eq {x y : Float32} (h : x.toModel.unpack = y.toModel.unpack) : x = y := by
  rw [← ofModel_pack_unpack x, h, ofModel_pack_unpack]

/-- The parts of the zeros are those of no number but zero. -/
lemma isZero_iff {x : Float32} : IsZero x ↔ ∃ s, x.toModel.unpack = .zero s := by
  have hzero : (0 : Float32).toModel.unpack = .zero .positive := rfl
  have hnegative : negativeZero.toModel.unpack = .zero .negative := rfl
  constructor
  · rintro (rfl | rfl)
    · exact ⟨.positive, hzero⟩
    · exact ⟨.negative, hnegative⟩
  · rintro ⟨s, hs⟩
    cases s with
    | positive => exact .inl (eq_of_unpack_eq (hs.trans hzero.symm))
    | negative => exact .inr (eq_of_unpack_eq (hs.trans hnegative.symm))

/-- Magnitudes that compare as equal have the same parts. -/
lemma eq_of_then_eq {m n : ℕ} {e q : ℤ} (h : (compare e q).then (compare m n) = .eq) :
    e = q ∧ m = n := by
  rw [Ordering.then_eq_eq] at h
  exact ⟨compare_eq_iff_eq.mp h.1, compare_eq_iff_eq.mp h.2⟩

/-- Parts that compare as equal are the same, up to the sign of a zero. -/
lemma compare_eq_eq {a b : UnpackedFloat} (h : a.compare b = some .eq) :
    (a = b ∧ a ≠ .notANumber) ∨ ∃ s t, a = .zero s ∧ b = .zero t := by
  cases a with
  | notANumber => cases b <;> cases h
  | infinity s =>
    cases b with
    | notANumber => cases h
    | infinity t =>
      cases s <;> cases t
      · exact .inl ⟨rfl, fun hnan => by cases hnan⟩
      · cases h
      · cases h
      · exact .inl ⟨rfl, fun hnan => by cases hnan⟩
    | zero t => cases s <;> cases h
    | finite t n q hn => cases s <;> cases h
  | zero s =>
    cases b with
    | notANumber => cases h
    | infinity t => cases t <;> cases h
    | zero t => exact .inr ⟨s, t, rfl, rfl⟩
    | finite t n q hn => cases t <;> cases h
  | finite s m e hm =>
    cases b with
    | notANumber => cases h
    | infinity t => cases s <;> cases t <;> cases h
    | zero t => cases s <;> cases h
    | finite t n q hn =>
      refine .inl ⟨?_, fun hnan => by cases hnan⟩
      cases s <;> cases t
      · have hswap : ((compare e q).then (compare m n)).swap = .eq := Option.some.inj h
        obtain ⟨rfl, rfl⟩ := eq_of_then_eq (Ordering.swap_eq_eq.mp hswap)
        rfl
      · cases h
      · cases h
      · obtain ⟨rfl, rfl⟩ := eq_of_then_eq (Option.some.inj h)
        rfl

/-- Parts of a number compare as equal with themselves. -/
lemma compare_self {a : UnpackedFloat} (h : a ≠ .notANumber) : a.compare a = some .eq := by
  cases a with
  | notANumber => exact absurd rfl h
  | infinity s => cases s <;> rfl
  | zero s => rfl
  | finite s m e hm =>
    have hself : (compare e e).then (compare m m) = .eq := by simp
    cases s
    · exact congrArg some (congrArg Ordering.swap hself)
    · exact congrArg some hself

/-- Singles are equal as numbers if they are the same number, or both zero. -/
lemma beq_iff {x y : Float32} :
    (x == y) = true ↔ (x = y ∧ x.toModel.unpack ≠ .notANumber) ∨ (IsZero x ∧ IsZero y) := by
  have hcompare : (x == y) = true ↔ x.toModel.unpack.compare y.toModel.unpack = some .eq := by
    change (x.toModel.unpack.compare y.toModel.unpack == some .eq) = true ↔ _
    exact beq_iff_eq
  rw [hcompare, isZero_iff, isZero_iff]
  constructor
  · intro h
    rcases compare_eq_eq h with ⟨heq, hnumber⟩ | ⟨s, t, hs, ht⟩
    · exact .inl ⟨eq_of_unpack_eq heq, hnumber⟩
    · exact .inr ⟨⟨s, hs⟩, ⟨t, ht⟩⟩
  · rintro (⟨rfl, hnumber⟩ | ⟨⟨s, hs⟩, ⟨t, ht⟩⟩)
    · exact compare_self hnumber
    · rw [hs, ht]
      rfl

/-! ### Numbers without a sign -/

section Unsigned

variable {spec : Float.Model.Format}

/-- Parts have no minus sign. -/
def Unsigned : UnpackedFloat → Prop
  | .infinity s | .zero s | .finite s _ _ _ => s = .positive
  | .notANumber => True

/-- Without a sign the first bit is not set. -/
lemma toNat_packComponents_lt (e : BitVec spec.exponentBits)
    (m : BitVec spec.mantissaBitsWithoutImplicit) :
    (packComponents spec .positive e m).toNat <
      2 ^ spec.exponentBits * 2 ^ spec.mantissaBitsWithoutImplicit := by
  have hexponent : (Sign.positive.toBitVec ++ e).toNat = e.toNat := by
    rw [BitVec.toNat_append]
    change 0 <<< spec.exponentBits ||| e.toNat = e.toNat
    rw [Nat.zero_shiftLeft, Nat.zero_or]
  unfold packComponents
  rw [BitVec.toNat_append, hexponent, ← Nat.shiftLeft_add_eq_or_of_lt m.isLt, Nat.shiftLeft_eq]
  calc e.toNat * 2 ^ spec.mantissaBitsWithoutImplicit + m.toNat
      < (e.toNat + 1) * 2 ^ spec.mantissaBitsWithoutImplicit := by
        rw [Nat.add_one_mul]
        exact Nat.add_lt_add_left m.isLt _
    _ ≤ 2 ^ spec.exponentBits * 2 ^ spec.mantissaBitsWithoutImplicit :=
        Nat.mul_le_mul_right _ e.isLt

/-- Parts without a sign are packed without one. -/
lemma Unsigned.toNat_pack_lt {u : UnpackedFloat} (h : Unsigned u) :
    (pack spec u).toNat < 2 ^ spec.exponentBits * 2 ^ spec.mantissaBitsWithoutImplicit := by
  cases u with
  | notANumber => exact toNat_packComponents_lt _ _
  | infinity s | zero s =>
    cases h
    exact toNat_packComponents_lt _ _
  | finite s m e hm =>
    cases h
    unfold pack
    dsimp only
    split
    · exact toNat_packComponents_lt _ _
    · split <;> exact toNat_packComponents_lt _ _

/-- A pattern whose first bit is not set has no sign. -/
lemma unsigned_unpack {b : BitVec spec.numBits}
    (h : b.toNat < 2 ^ spec.exponentBits * 2 ^ spec.mantissaBitsWithoutImplicit) :
    Unsigned (unpack spec b) := by
  have hsign : Sign.ofBitVec (unpackSign b) = .positive := by
    have hzero : unpackSign b = 0#1 := by
      rw [← BitVec.toNat_inj, unpackSign_def, BitVec.extractLsb'_toNat,
        Nat.shiftRight_eq_div_pow, Nat.div_eq_of_lt (by rwa [Nat.pow_add, Nat.mul_comm])]
      rfl
    rw [hzero]
    rfl
  unfold unpack
  dsimp only
  rw [hsign]
  split
  · split
    · rfl
    · trivial
  · split
    · split <;> rfl
    · rfl

/-- Rounding adds no sign. -/
lemma unsigned_round (m : ℕ) (e : ℤ) (accuracy : Accuracy) :
    Unsigned (roundWithAccuracy spec .positive m e accuracy) := by
  unfold roundWithAccuracy
  dsimp only
  split <;> rfl

/-- A product of parts without a sign has none. -/
lemma Unsigned.mul {a b : UnpackedFloat} (ha : Unsigned a) (hb : Unsigned b) :
    Unsigned (UnpackedFloat.mul spec a b) := by
  cases a with
  | notANumber => cases b <;> trivial
  | infinity s =>
    cases ha
    cases b with
    | notANumber | zero t => trivial
    | infinity t | finite t n q hn =>
      cases hb
      rfl
  | zero s =>
    cases ha
    cases b with
    | notANumber | infinity t => trivial
    | zero t | finite t n q hn =>
      cases hb
      rfl
  | finite s m e hm =>
    cases ha
    cases b with
    | notANumber => trivial
    | infinity t | zero t =>
      cases hb
      rfl
    | finite t n q hn =>
      cases hb
      exact unsigned_round _ _ _

end Unsigned

/-- A single has no minus sign. -/
def PlainSingle (x : Float32) : Prop :=
  x.toBits.toNat < Format.single.signBit

/-- A double has no minus sign. -/
def PlainDouble (x : Float) : Prop :=
  x.toBits.toNat < Format.double.signBit

/-- A product of singles without a sign has none. -/
lemma PlainSingle.mul {x y : Float32} (hx : PlainSingle x) (hy : PlainSingle y) :
    PlainSingle (x * y) := by
  have hsign : Format.single.signBit = 2 ^ 8 * 2 ^ 23 := by decide
  unfold PlainSingle at hx hy ⊢
  rw [hsign] at hx hy ⊢
  have hx' := @unsigned_unpack .binary32 x.toBits.toBitVec hx
  have hy' := @unsigned_unpack .binary32 y.toBits.toBitVec hy
  exact (hx'.mul hy').toNat_pack_lt

/-- A product of doubles without a sign has none. -/
lemma PlainDouble.mul {x y : Float} (hx : PlainDouble x) (hy : PlainDouble y) :
    PlainDouble (x * y) := by
  have hsign : Format.double.signBit = 2 ^ 11 * 2 ^ 52 := by decide
  unfold PlainDouble at hx hy ⊢
  rw [hsign] at hx hy ⊢
  have hx' := @unsigned_unpack .binary64 x.toBits.toBitVec hx
  have hy' := @unsigned_unpack .binary64 y.toBits.toBitVec hy
  exact (hx'.mul hy').toNat_pack_lt

/-- The negative zero has a sign. -/
lemma PlainSingle.ne_negativeZero {x : Float32} (h : PlainSingle x) : x ≠ negativeZero := by
  rintro rfl
  have hbit : Format.single.signBit ≤ negativeZero.toBits.toNat := by decide
  exact Nat.not_lt.mpr hbit h

/-- A fraction without a sign is rounded to a single without a sign. -/
lemma plainSingle_single (num den : ℕ) : PlainSingle (single false num den) := by
  have hround := Format.single.round_le num den
  have hinf := Format.single.infinityBits_lt_signBit
  unfold PlainSingle single
  rw [show Format.single.roundSigned false num den = _ from Nat.zero_add _,
    toNat_toBits_ofBits_single hround]
  omega

/-- A fraction without a sign is rounded to a double without a sign. -/
lemma plainDouble_double (num den : ℕ) : PlainDouble (double false num den) := by
  have hround := Format.double.round_le num den
  have hinf := Format.double.infinityBits_lt_signBit
  unfold PlainDouble double
  rw [show Format.double.roundSigned false num den = _ from Nat.zero_add _,
    toNat_toBits_ofBits (by omega) (le_trans (Nat.mod_le _ _) hround)]
  omega

/-- A pattern whose first bit is not set stands for nothing with a sign. -/
lemma Format.decode_plain (f : Format) {bits : ℕ} (h : bits < f.signBit) :
    f.decode bits = .nan ∨ f.decode bits = .infinite false ∨
      ∃ m q, f.decode bits = .finite false m q := by
  unfold decode
  dsimp only
  rw [decide_eq_false (Nat.not_le.mpr h)]
  split
  · exact .inl rfl
  · split
    · exact .inr (.inl rfl)
    · split <;> exact .inr (.inr ⟨_, _, rfl⟩)

/-- A double without a sign is rounded to a single without a sign. -/
lemma PlainDouble.narrow {x : Float} (h : PlainDouble x) : PlainSingle (narrow x) := by
  unfold Number.narrow ofDouble PlainSingle
  rcases Format.double.decode_plain h with hx | hx | ⟨m, q, hx⟩
  · rw [hx]
    decide
  · rw [hx]
    decide
  · rw [hx]
    exact plainSingle_single _ _

end DialogChart.Number
