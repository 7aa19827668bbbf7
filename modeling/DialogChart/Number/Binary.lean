/-!
# Binary floating-point formats

A finite floating-point number is `± m · 2 ^ q`.  This file reads the three parts off the
bits of a number and, in the other direction, rounds an exact non-negative fraction to the
nearest number of a format.  Everything is done in exact natural-number arithmetic; the
`Float` and `Float32` types appear only in the last section, through their bits.
-/

namespace DialogChart.Number

/-- A binary format: `precision` counts the bits of a significand, the leading one included,
and `exponentBits` the bits of the stored exponent. -/
structure Format where
  precision : Nat
  exponentBits : Nat

namespace Format

/-- The 32-bit format. -/
def single : Format := ⟨24, 8⟩

/-- The 64-bit format. -/
def double : Format := ⟨53, 11⟩

/-- The weight of the leading bit of a significand. -/
def leadingBit (f : Format) : Nat :=
  1 <<< (f.precision - 1)

/-- The exponent `q` of the smallest positive number `1 · 2 ^ q`. -/
def leastExponent (f : Format) : Int :=
  2 - (1 <<< (f.exponentBits - 1) : Nat) - (f.precision - 1 : Nat)

/-- The bits of positive infinity.  The finite magnitudes are exactly the smaller patterns. -/
def infinityBits (f : Format) : Nat :=
  ((1 <<< f.exponentBits) - 1) * f.leadingBit

/-- The weight of the sign bit. -/
def signBit (f : Format) : Nat :=
  f.leadingBit <<< f.exponentBits

end Format

/-- What a pattern of bits stands for. -/
inductive Datum where
  | finite (negative : Bool) (m : Nat) (q : Int)
  | infinite (negative : Bool)
  | nan
  deriving DecidableEq, Repr

/-- The number that a pattern of bits stands for. -/
def Format.decode (f : Format) (bits : Nat) : Datum :=
  let negative := f.signBit ≤ bits
  let magnitude := bits % f.signBit
  if f.infinityBits < magnitude then .nan
  else if magnitude = f.infinityBits then .infinite negative
  else
    let exponent := magnitude / f.leadingBit
    let fraction := magnitude % f.leadingBit
    if exponent = 0 then .finite negative fraction f.leastExponent
    else .finite negative (f.leadingBit + fraction) (f.leastExponent + (exponent - 1 : Nat))

/-! ### Rounding

A fraction is scaled by a power of two so that its integer part has `precision` bits, or
fewer when the exponent would fall below the least one, and the scaled fraction goes to the
nearest integer.  A carry into the next binade needs no special case: the pattern of
`m · 2 ^ q` is `(q - leastExponent) · 2 ^ (precision - 1) + m` on both sides of the carry. -/

/-- The integer nearest to `num / den`; a half goes to the even neighbour. -/
def nearestEven (num den : Nat) : Nat :=
  let quotient := num / den
  let twice := 2 * (num % den)
  if den < twice ∨ (twice = den ∧ quotient % 2 = 1) then quotient + 1 else quotient

/-- The fraction `num / den · 2 ^ q`, as numerator and denominator. -/
def scale (num den : Nat) (q : Int) : Nat × Nat :=
  match q with
  | .ofNat k => (num <<< k, den)
  | .negSucc k => (num, den <<< (k + 1))

/-- The exponent that leaves `precision` bits before the point of `num / den`, for a positive
fraction; never below the least exponent of the format. -/
def Format.exponentFor (f : Format) (num den : Nat) : Int :=
  let guess : Int := (num.log2 : Int) - den.log2 - (f.precision - 1 : Nat)
  let (n, d) := scale num den (-guess)
  let exact := if n < d * f.leadingBit then guess - 1 else guess
  max f.leastExponent exact

/-- The bits of the number of the format that is nearest to `num / den`, ties to even.
Fractions beyond the range give infinity. -/
def Format.round (f : Format) (num den : Nat) : Nat :=
  if num = 0 then 0
  else
    let q := f.exponentFor num den
    let (n, d) := scale num den (-q)
    let bits := (q - f.leastExponent).toNat * f.leadingBit + nearestEven n d
    min f.infinityBits bits

/-- The bits of `± num / den`, rounded to nearest. -/
def Format.roundSigned (f : Format) (negative : Bool) (num den : Nat) : Nat :=
  (if negative then f.signBit else 0) + f.round num den

/-! ### Numbers of the two formats -/

/-- The double nearest to `± num / den`. -/
def double (negative : Bool) (num den : Nat) : Float :=
  Float.ofBits (UInt64.ofNat (Format.double.roundSigned negative num den))

/-- The single nearest to `± num / den`. -/
def single (negative : Bool) (num den : Nat) : Float32 :=
  Float32.ofBits (UInt32.ofNat (Format.single.roundSigned negative num den))

/-- The single nearest to an integer. -/
def singleOfInt (i : Int) : Float32 :=
  single (i < 0) i.natAbs 1

/-- The parts of a double. -/
def ofDouble (x : Float) : Datum :=
  Format.double.decode x.toBits.toNat

/-- The parts of a single. -/
def ofSingle (x : Float32) : Datum :=
  Format.single.decode x.toBits.toNat

/-- The single nearest to a double; infinities and NaN are kept. -/
def narrow (x : Float) : Float32 :=
  match ofDouble x with
  | .nan => Float32.ofBits 0x7fc00000
  | .infinite negative =>
    Float32.ofBits (UInt32.ofNat ((if negative then Format.single.signBit else 0) +
      Format.single.infinityBits))
  | .finite negative m q =>
    let (num, den) := scale m 1 q
    single negative num den

end DialogChart.Number
