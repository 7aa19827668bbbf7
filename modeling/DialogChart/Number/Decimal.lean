import DialogChart.Number.Binary

/-!
# Decimal texts of floating-point numbers

A decimal is `± digits · 10 ^ exponent`.  Reading a decimal rounds it to the nearest double.
Writing a number takes the fewest decimal digits that read back as the same number; of two
such decimals the nearer one is taken, and of two equally near ones the even one.

`NumberForm` says how chosen digits are laid out: which decimal exponents are written
positionally, and whether an integer keeps a fraction part.
-/

namespace DialogChart.Number

/-- The decimal number `± digits · 10 ^ exponent`. -/
structure Decimal where
  negative : Bool
  digits : Nat
  exponent : Int
  deriving DecidableEq, Repr

/-- The fraction `num · 10 ^ e`, as numerator and denominator. -/
def scaleTen (num : Nat) (e : Int) : Nat × Nat :=
  match e with
  | .ofNat k => (num * Nat.pow 10 k, 1)
  | .negSucc k => (num, Nat.pow 10 (k + 1))

/-- The double nearest to a decimal.  Decimals that are far beyond the range, or far below
the least positive number, are settled by their size alone. -/
def Decimal.toDouble (d : Decimal) : Float :=
  if d.digits = 0 then double d.negative 0 1
  else if 400 < d.exponent then double d.negative (1 <<< 1024) 1
  else if d.exponent < -(400 + (d.digits.log2 : Int)) then double d.negative 0 1
  else
    let (num, den) := scaleTen d.digits d.exponent
    double d.negative num den

/-! ### The fewest digits that read back

For `m · 2 ^ q` the reals that round to it form an interval.  Its ends lie half a unit away,
a quarter of a unit below a power of two, and they belong to it exactly when `m` is even.
Measured in quarters of a unit the ends are integers, so that a multiple of a power of ten is
compared with them by cross multiplication. -/

/-- The reals that round to `value / 4 · 2 ^ q`, in quarters of the unit `2 ^ q`. -/
structure Interval where
  low : Nat
  value : Nat
  high : Nat
  closed : Bool

/-- The interval of the reals that round to `m · 2 ^ q`. -/
def Format.interval (f : Format) (m : Nat) (q : Int) : Interval :=
  let below := if m = f.leadingBit ∧ f.leastExponent < q then 1 else 2
  ⟨4 * m - below, 4 * m, 4 * m + 2, m % 2 = 0⟩

/-- Whether the multiple `c` of the grid lies in the interval, where a quarter of a unit is
`num / den` steps of the grid. -/
def Interval.holds (i : Interval) (num den c : Nat) : Bool :=
  if i.closed then i.low * num ≤ c * den && c * den ≤ i.high * num
  else i.low * num < c * den && c * den < i.high * num

/-- The multiple of the grid that is nearest to the value among the multiples in the interval,
if there is one. -/
def Interval.nearest? (i : Interval) (num den : Nat) : Option Nat :=
  let down := i.value * num / den
  let up := down + 1
  let nearer := nearestEven (i.value * num) den
  let other := if nearer = down then up else down
  if 0 < nearer && i.holds num den nearer then some nearer
  else if 0 < other && i.holds num den other then some other
  else none

/-- Search the grids `10 ^ j`, `10 ^ (j - 1)`, … for the first one with a multiple in the
interval, and return that multiple with the exponent of its grid. -/
def Interval.search (i : Interval) (q : Int) : Nat → Int → Nat × Int
  | 0, j => (1, j)
  | grids + 1, j =>
    let (n₂, d₂) := scale 1 1 (q - 2)
    let (n₁, d₁) := scaleTen 1 (-j)
    match i.nearest? (n₂ * n₁) (d₂ * d₁) with
    | some c => (c, j)
    | none => i.search q grids (j - 1)

/-- The shortest digits of `m · 2 ^ q`, for a positive `m`, with their decimal exponent.
The first grid has at most one multiple up to the value, and twenty grids further its step is
below the unit of either format. -/
def Format.shortest (f : Format) (m : Nat) (q : Int) : Nat × Int :=
  let top : Int := ((m.log2 : Int) + 1 + q) * 30103 / 100000 + 1
  (f.interval m q).search q 24 top

/-! ### Laying out digits -/

/-- How digits are laid out.  Numbers `d.ddd · 10 ^ E` with `least ≤ E ≤ most` are written
positionally, all others with an exponent; `keepPoint` asks for a digit after the point. -/
structure NumberForm where
  least : Int
  most : Int
  keepPoint : Bool

/-- A positive number from its digits, where the last digit has the weight `10 ^ exponent`,
written positionally. -/
def positional (keepPoint : Bool) (digits : List Char) (exponent : Int) : List Char :=
  match exponent with
  | .ofNat k =>
    digits ++ List.replicate k '0' ++ (if keepPoint then ['.', '0'] else [])
  | .negSucc k =>
    let places := k + 1
    let padded := List.replicate (places + 1 - digits.length) '0' ++ digits
    let whole := padded.length - places
    padded.take whole ++ '.' :: padded.drop whole

/-- A positive number from its digits, with the exponent `E` of the first digit. -/
def scientific (digits : List Char) (E : Int) : List Char :=
  let head := digits.take 1
  let tail := digits.drop 1
  let point := if tail = [] then [] else '.' :: tail
  let sign := if E < 0 then '-' else '+'
  head ++ point ++ 'e' :: sign :: Nat.toDigits 10 E.natAbs

/-- The text of the digits `c` at the weight `10 ^ exponent`. -/
def NumberForm.layOut (form : NumberForm) (c : Nat) (exponent : Int) : List Char :=
  let digits := Nat.toDigits 10 c
  let E := exponent + (digits.length - 1 : Nat)
  if form.least ≤ E ∧ E ≤ form.most then positional form.keepPoint digits exponent
  else scientific digits E

/-- The text of a number of the format, `none` for infinities and NaN. -/
def NumberForm.text? (form : NumberForm) (f : Format) : Datum → Option String
  | .finite negative m q =>
    let body :=
      if m = 0 then (if form.keepPoint then ['0', '.', '0'] else ['0'])
      else
        let (c, exponent) := f.shortest m q
        form.layOut c exponent
    some (String.ofList (if negative then '-' :: body else body))
  | _ => none

/-! ### The forms in use -/

/-- Singles in documents: positional from `0.000001` up to thirteen digits before the point. -/
def singleForm : NumberForm := ⟨-6, 12, true⟩

/-- Doubles in documents: positional from `0.00001` up to sixteen digits before the point. -/
def doubleForm : NumberForm := ⟨-5, 15, true⟩

/-- The text of a single in a document, `none` where it has none. -/
def singleText? (x : Float32) : Option String :=
  singleForm.text? .single (ofSingle x)

/-- The text of a double in a document, `none` where it has none. -/
def doubleText? (x : Float) : Option String :=
  doubleForm.text? .double (ofDouble x)

/-- Names for the values without digits. -/
def Datum.specialText : Datum → String
  | .infinite false => "inf"
  | .infinite true => "-inf"
  | _ => "nan"

/-- The text of a single on its own, where infinities and NaN are named. -/
def singleText (x : Float32) : String :=
  (singleText? x).getD (ofSingle x).specialText

/-- The text of a double on its own, where infinities and NaN are named. -/
def doubleText (x : Float) : String :=
  (doubleText? x).getD (ofDouble x).specialText

/-- The text of a single written positionally whatever its size, without a fraction part when
it is an integer. -/
def plainText (x : Float32) : String :=
  (NumberForm.text? ⟨-100, 100, false⟩ .single (ofSingle x)).getD (ofSingle x).specialText

end DialogChart.Number
