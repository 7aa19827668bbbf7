import DialogChart.Json.Reader
import DialogChart.Json.Value

/-!
# Literals, strings and numbers

The leaves of a JSON text.  A string is read character by character; an escape takes two
characters, or six, or twelve for a surrogate pair, and the faults of an escape count bytes, as
its four digits are taken by bytes.  A number is an integer if it is written as one and fits
into 64 bits, signed or not; otherwise it is the double that a reader of literals finds in it.
-/

namespace DialogChart.Json

/-! ### Literals -/

/-- Take the given letters. -/
def scanWord : List Char → List Char → Except Fault (List Char)
  | [], s => .ok s
  | _ :: _, [] => .error (.here .endInValue [])
  | w :: ws, c :: s =>
    if c = w then scanWord ws s else .error (.ahead 1 .expectedLiteral (c :: s))

/-- Taking the letters of a literal never lengthens the text. -/
theorem length_scanWord_le {w s r : List Char} (h : scanWord w s = .ok r) :
    r.length ≤ s.length := by
  induction w generalizing s with
  | nil =>
    cases h
    exact Nat.le_refl _
  | cons a w ih =>
    cases s with
    | nil => simp [scanWord] at h
    | cons c s =>
      simp only [scanWord] at h
      split at h
      · exact Nat.le_succ_of_le (ih h)
      · simp at h

/-- Take the letters of a literal after its first one. -/
def Reader.word (letters : String) : Reader Unit where
  run s :=
    match scanWord letters.toList s with
    | .ok r => .ok ((), r)
    | .error e => .error e
  length_le {s a r} h := by
    cases hw : scanWord letters.toList s with
    | error e => simp [hw] at h
    | ok t =>
      simp only [hw, Except.ok.injEq, Prod.mk.injEq, true_and] at h
      exact h ▸ length_scanWord_le hw

/-! ### Strings -/

/-- The value of a hexadecimal digit. -/
def hexValue? (c : Char) : Option Nat :=
  let n := c.toNat
  if '0'.toNat ≤ n ∧ n ≤ '9'.toNat then some (n - '0'.toNat)
  else if 'a'.toNat ≤ n ∧ n ≤ 'f'.toNat then some (n - 'a'.toNat + 10)
  else if 'A'.toNat ≤ n ∧ n ≤ 'F'.toNat then some (n - 'A'.toNat + 10)
  else none

/-- The code unit that four hexadecimal digits stand for. -/
def unit? (a b c d : Char) : Option Nat :=
  match hexValue? a, hexValue? b, hexValue? c, hexValue? d with
  | some a, some b, some c, some d => some (((a * 16 + b) * 16 + c) * 16 + d)
  | _, _, _, _ => none

/-- The fault of an escape whose four digits are not there. -/
def unitFault (s : List Char) : Fault :=
  if bytes s < 4 then .here .endInString [] else .ahead 4 .invalidEscape s

/-- The fault of a leading surrogate that no escape follows. -/
def unfinishedFault : List Char → Fault
  | [] => .here .endInString []
  | s => .ahead 1 .unfinishedSurrogate s

/-- Whether a code unit starts a surrogate pair. -/
def isLeading (n : Nat) : Bool :=
  0xd800 ≤ n && n ≤ 0xdbff

/-- Whether a code unit ends a surrogate pair. -/
def isTrailing (n : Nat) : Bool :=
  0xdc00 ≤ n && n ≤ 0xdfff

/-- The character of a surrogate pair. -/
def pairChar (leading trailing : Nat) : Char :=
  Char.ofNat (0x10000 + (leading - 0xd800) * 0x400 + (trailing - 0xdc00))

/-- The character of an escape by a single letter. -/
def letterEscape? : Char → Option Char
  | '"' => some '"'
  | '\\' => some '\\'
  | '/' => some '/'
  | 'b' => some '\x08'
  | 'f' => some '\x0c'
  | 'n' => some '\n'
  | 'r' => some '\r'
  | 't' => some '\t'
  | _ => none

/-- The characters up to the closing quote, behind those in `taken` (last one first). -/
def scanString (taken : List Char) : List Char → Except Fault (String × List Char)
  | [] => .error (.here .endInString [])
  | '"' :: s => .ok (String.ofList taken.reverse, s)
  | '\\' :: 'u' :: a :: b :: c :: d :: s =>
    match unit? a b c d with
    | none => .error (unitFault (a :: b :: c :: d :: s))
    | some n =>
      if isTrailing n then .error (.here .loneSurrogate s)
      else if isLeading n then
        match s with
        | '\\' :: 'u' :: e :: f :: g :: h :: s =>
          match unit? e f g h with
          | none => .error (unitFault (e :: f :: g :: h :: s))
          | some k =>
            if isTrailing k then scanString (pairChar n k :: taken) s
            else .error (.here .loneSurrogate s)
        | '\\' :: 'u' :: s => .error (unitFault s)
        | '\\' :: s => .error (unfinishedFault s)
        | s => .error (unfinishedFault s)
      else scanString (Char.ofNat n :: taken) s
  | '\\' :: 'u' :: s => .error (unitFault s)
  | '\\' :: c :: s =>
    match letterEscape? c with
    | some x => scanString (x :: taken) s
    | none => .error (.ahead 1 .invalidEscape (c :: s))
  | ['\\'] => .error (.here .endInString [])
  | c :: s =>
    if c.toNat < 0x20 then .error (.ahead 1 .controlCharacter (c :: s))
    else scanString (c :: taken) s

/-- Taking a string never lengthens the text. -/
theorem length_scanString_le {taken s r : List Char} {t : String}
    (h : scanString taken s = .ok (t, r)) : r.length ≤ s.length := by
  fun_induction scanString taken s <;> simp_all <;> omega

/-- Read a string whose opening quote has been taken. -/
def Reader.stringBody : Reader String where
  run := scanString []
  length_le h := length_scanString_le h

/-! ### Numbers -/

/-- A reader of literals: the double that the text of a number stands for, infinite if the number is
out of range. -/
structure NumberReader where
  read : String → Float

/-- Whether a character is a decimal digit. -/
def isDigit (c : Char) : Bool :=
  '0'.toNat ≤ c.toNat && c.toNat ≤ '9'.toNat

/-- The value of a decimal digit. -/
def digitValue (c : Char) : Nat :=
  c.toNat - '0'.toNat

/-- The number that decimal digits stand for. -/
def digitsValue (digits : List Char) : Nat :=
  digits.foldl (fun n c => 10 * n + digitValue c) 0

/-- The largest exponent that is read to its end. -/
def exponentLimit : Nat := (1 <<< 31) - 1

/-- The exponent in front of a text, behind digits worth `n`; `none` right behind the digit
that takes it over the limit. -/
def scanExponent (n : Nat) : List Char → Option Nat × List Char
  | [] => (some n, [])
  | c :: s =>
    if isDigit c then
      let next := 10 * n + digitValue c
      if exponentLimit < next then (none, s) else scanExponent next s
    else (some n, c :: s)

/-- Taking an exponent never lengthens the text. -/
theorem length_scanExponent_le (n : Nat) (s : List Char) :
    (scanExponent n s).2.length ≤ s.length := by
  induction s generalizing n with
  | nil => exact Nat.le_refl _
  | cons c s ih =>
    rw [scanExponent]
    split
    · dsimp only
      split
      · exact Nat.le_succ _
      · exact Nat.le_succ_of_le (ih _)
    · exact Nat.le_refl _

namespace Reader

open Scanner (look advance takes)

/-- Take the digits in front. -/
def digits : Reader (List Char) :=
  .takeWhile isDigit

/-- Take the exponent in front. -/
def exponentDigits : Reader (Option Nat) where
  run s := .ok (scanExponent 0 s)
  length_le {s a r} h := by
    simp only [Except.ok.injEq] at h
    have hl := length_scanExponent_le 0 s
    rwa [h] at hl

/-- Take the digits before the point: a zero stands alone. -/
def wholePart : Reader (List Char) := do
  match ← look with
  | none => stopHere .endInValue
  | some '0' =>
    advance
    match ← look with
    | some c => if isDigit c then stopNext .invalidNumber else return ['0']
    | none => return ['0']
  | some c => if isDigit c then digits else stopBehind .invalidNumber

/-- Take the point and the digits behind it, if there is a point. -/
def fractionPart : Reader (Option (List Char)) := do
  if ← takes '.' then
    match ← digits with
    | [] =>
      match ← look with
      | none => stopNext .endInValue
      | some _ => stopNext .invalidNumber
    | ds => return some ds
  else return none

/-- Take the sign of an exponent; the value says whether it is negative. -/
def exponentSign : Reader Bool := do
  if ← takes '-' then return true
  let _ ← takes '+'
  return false

/-- What the form of a number tells: it is an integer of 64 bits, it is too small to tell from zero,
or its value is up to the reader of literals. -/
inductive NumeralKind where
  | integer (i : Int)
  | vanishing (negative : Bool)
  | literal

/-- Take the exponent of a number, its letter being taken. -/
def exponentPart (negative isZero : Bool) : Reader NumeralKind := do
  let small ← exponentSign
  match ← look with
  | none => stopHere .endInValue
  | some c =>
    if isDigit c then
      match ← exponentDigits with
      | some _ => return .literal
      | none =>
        if !isZero && !small then stopHere .numberOutOfRange
        else
          let _ ← digits
          return .vanishing negative
    else stopBehind .invalidNumber

/-- The kind of a number that is written as an integer. -/
def integerKind (negative : Bool) (n : Nat) : NumeralKind :=
  if negative then
    if n = 0 ∨ 1 <<< 63 < n then .literal else .integer (-(n : Int))
  else if n < 1 <<< 64 then .integer n
  else .literal

/-- Take a number. -/
def numeralKind : Reader NumeralKind := do
  let negative ← takes '-'
  let whole ← wholePart
  let fraction ← fractionPart
  match ← look with
  | some 'e' | some 'E' =>
    advance
    exponentPart negative (digitsValue (whole ++ fraction.getD []) = 0)
  | _ => return if fraction.isSome then .literal else integerKind negative (digitsValue whole)

/-- The double of a literal, which has to be in range. -/
def inRange (x : Float) : Reader Numeral :=
  match Number.ofDouble x with
  | .finite _ _ _ => return .double x
  | _ => stopHere .numberOutOfRange

/-- Read a number. -/
def number (numbers : NumberReader) : Reader Numeral := do
  let (kind, literal) ← numeralKind.taking
  match kind with
  | .integer i => return .integer i
  | .vanishing negative => return .double (Number.double negative 0 1)
  | .literal => inRange (numbers.read (String.ofList literal))

end Reader

end DialogChart.Json
