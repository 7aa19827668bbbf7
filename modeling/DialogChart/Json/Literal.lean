import DialogChart.Json.Token

/-!
# Doubles of literals

Two readers of literals.  `NumberReader.nearest` rounds the number that is written to the nearest
double.  `NumberReader.scaled` reads the leading digits as a number of 64 bits and scales it by a
power of ten in one operation on doubles; it rounds up to three times, so for some literals it
gives a neighbour of the nearest double.
-/

namespace DialogChart.Json

/-- The parts of a literal `± whole.places · 10 ^ exponent`. -/
structure Literal where
  negative : Bool
  whole : List Char
  places : List Char
  exponent : Int

namespace Literal

/-- The exponent that is written behind its letter. -/
def exponentOf : List Char → Int
  | '-' :: s => -(digitsValue s : Int)
  | '+' :: s => digitsValue s
  | s => digitsValue s

/-- The parts of a literal that has no sign. -/
def ofUnsigned (negative : Bool) (s : List Char) : Literal :=
  let whole := s.takeWhile isDigit
  match s.dropWhile isDigit with
  | '.' :: s =>
    ⟨negative, whole, s.takeWhile isDigit, exponentOf (s.dropWhile isDigit).tail⟩
  | s => ⟨negative, whole, [], exponentOf s.tail⟩

/-- The parts of a literal. -/
def ofChars : List Char → Literal
  | '-' :: s => ofUnsigned true s
  | s => ofUnsigned false s

/-- The number that a literal stands for. -/
def decimal (l : Literal) : Number.Decimal :=
  ⟨l.negative, digitsValue (l.whole ++ l.places), -(l.places.length : Int) + l.exponent⟩

/-- The digits behind a number `n` that still fit into 64 bits, read with `n`, and how many do
not fit. -/
def fit (n : Nat) : List Char → Nat × Nat
  | [] => (n, 0)
  | c :: s =>
    let next := 10 * n + digitValue c
    if next < 1 <<< 64 then fit next s else (n, s.length + 1)

/-- The leading digits as a number of 64 bits, and the power of ten to scale it by. -/
def significand (l : Literal) : Nat × Int :=
  let (n, long) := fit 0 l.whole
  let (n, dropped) := fit n l.places
  (n, long - (l.places.length - dropped : Nat) + l.exponent)

end Literal

/-- The double of a power of ten. -/
def tenTo (k : Nat) : Float :=
  Number.double false (Nat.pow 10 k) 1

/-- The largest power of ten that is a double. -/
def largestPower : Nat := 308

/-- A double divided by a power of ten, in steps if the power is no double. -/
def scaleDown (x : Float) (k : Nat) : Float :=
  if k ≤ largestPower then x / tenTo k
  else if x == 0 then x
  else scaleDown (x / tenTo largestPower) (k - largestPower)
termination_by k
decreasing_by
  simp only [largestPower] at *
  omega

/-- A double multiplied by a power of ten; it is out of range if the power is no double. -/
def scaleUp (x : Float) (k : Nat) : Float :=
  if k ≤ largestPower then x * tenTo k
  else if x == 0 then x
  else x / 0

namespace NumberReader

/-- The reader that gives the nearest double. -/
def nearest : NumberReader where
  read s := (Literal.ofChars s.toList).decimal.toDouble

/-- The reader that scales the leading digits by a power of ten. -/
def scaled : NumberReader where
  read s :=
    let l := Literal.ofChars s.toList
    let (n, k) := l.significand
    let x := Number.double false n 1
    let y := if k < 0 then scaleDown x k.natAbs else scaleUp x k.natAbs
    if l.negative then -y else y

end NumberReader

end DialogChart.Json
