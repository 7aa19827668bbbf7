import DialogChart.Json.Token

/-!
# Keys and plain values of TOML

The leaves of a TOML document: blanks and comments, strings, keys, numbers, truth values, dates and
times.  A document that breaks a rule is refused as a whole, so scanners of this format
stop without saying why.
-/

namespace DialogChart.Toml

/-- A scanner that gives no reasons. -/
abbrev Reader (α : Type) := Scanner Unit α

/-- Refuse the document. -/
def refuse {α : Type} : Reader α :=
  .stop fun _ => ()

/-- The value that has to be there. -/
def expect {α : Type} : Option α → Reader α
  | some a => return a
  | none => refuse

/-- Take the given character, which has to follow. -/
def must (c : Char) : Reader Unit := do
  if ← .takes c then return () else refuse

/-! ### Blanks and comments -/

/-- Whether a character may stand in a comment or a string. -/
def isPlain (c : Char) : Bool :=
  c = '\t' || (0x20 ≤ c.toNat && c.toNat ≠ 0x7f)

/-- Take blanks within a line. -/
def blanks : Reader Unit := do
  let _ ← Scanner.takeWhile fun c => c = ' ' || c = '\t'

/-- Take a comment, if there is one. -/
def comment : Reader Unit := do
  if ← .takes '#' then
    let _ ← Scanner.takeWhile isPlain

/-- Take a line break, if there is one. -/
def lineBreak : Reader Bool := do
  if ← .takes '\r' then
    must '\n'
    return true
  else .takes '\n'

/-- Take blanks, comments and line breaks. -/
def gaps : Reader Unit :=
  .iterate (fun _ => do
    blanks
    comment
    return ((), ← lineBreak)) ()

/-- Take the rest of a line: nothing but blanks and a comment. -/
def endOfLine : Reader Unit := do
  blanks
  comment
  match ← Scanner.look with
  | none => return ()
  | some _ => if ← lineBreak then return () else refuse

/-! ### Strings -/

/-- The number that hexadecimal digits stand for. -/
def hexNumber? (digits : List Char) : Option Nat :=
  digits.foldl (fun n c => do return (← n) * 16 + (← Json.hexValue? c)) (some 0)

/-- The character of a code point, if there is one. -/
def charOf? (n : Nat) : Option Char :=
  if n.isValidChar then some (Char.ofNat n) else none

/-- Take `count` characters. -/
def takeCount : Nat → Reader (List Char)
  | 0 => return []
  | count + 1 => do
    let c ← expect (← .look)
    .advance
    return c :: (← takeCount count)

/-- Take a code point of `count` hexadecimal digits. -/
def codePoint (count : Nat) : Reader Char := do
  let digits ← takeCount count
  expect ((hexNumber? digits).bind charOf?)

/-- Take an escape behind its backslash. -/
def escape : Reader Char := do
  let c ← expect (← .look)
  .advance
  match c with
  | 'b' => return '\x08'
  | 't' => return '\t'
  | 'n' => return '\n'
  | 'f' => return '\x0c'
  | 'r' => return '\r'
  | 'e' => return '\x1b'
  | '"' => return '"'
  | '\\' => return '\\'
  | 'x' => codePoint 2
  | 'u' => codePoint 4
  | 'U' => codePoint 8
  | _ => refuse

/-- Take a string between double quotes, the first one being taken. -/
def basicString : Reader String := do
  let taken ← Scanner.iterate (fun taken : List Char => do
    let c ← expect (← .look)
    if c = '"' then return (taken, false)
    else
      .advance
      if c = '\\' then return ((← escape) :: taken, true)
      else if isPlain c then return (c :: taken, true)
      else refuse) []
  must '"'
  return String.ofList taken.reverse

/-- The apostrophe. -/
def apostrophe : Char := Char.ofNat 39

/-- Take a string between apostrophes, the first one being taken. -/
def literalString : Reader String := do
  let taken ← Scanner.takeWhile fun c => isPlain c && c ≠ apostrophe
  must apostrophe
  return String.ofList taken

/-- Take an escape behind its backslash in a string over several lines.  At the end of a line it
stands for nothing and takes all blanks and line breaks that follow. -/
def longEscape : Reader (List Char) := do
  let c ← expect (← .look)
  if c = ' ' || c = '\t' || c = '\r' || c = '\n' then
    blanks
    if ← lineBreak then
      Scanner.iterate (fun _ => do
        blanks
        return ((), ← lineBreak)) ()
      return []
    else refuse
  else return [← escape]

/-- Take a string over several lines behind its three opening quotes.  A line break right behind
them does not belong to it.  Up to two quotes in a row do, also right before the three that end
it. -/
def longString (quote : Char) (escapes : Bool) : Reader String := do
  let _ ← lineBreak
  let taken ← Scanner.iterate (fun taken : List Char => do
    let c ← expect (← .look)
    if c = quote then
      let quotes ← Scanner.takeWhile (· = quote)
      if quotes.length < 3 then return (quotes ++ taken, true)
      else if quotes.length ≤ 5 then return (quotes.drop 3 ++ taken, false)
      else refuse
    else if ← lineBreak then return ('\n' :: taken, true)
    else
      .advance
      if escapes && c = '\\' then return ((← longEscape) ++ taken, true)
      else if isPlain c then return (c :: taken, true)
      else refuse) []
  return String.ofList taken.reverse

/-- Take a string behind its first quote: three of them open one over several lines. -/
def anyString (quote : Char) (escapes : Bool) (onOneLine : Reader String) : Reader String := do
  if ← .takes quote then
    if ← .takes quote then longString quote escapes else return ""
  else onOneLine

/-! ### Keys -/

/-- Whether a character may stand in a key without quotes. -/
def inBareKey (c : Char) : Bool :=
  c.isAlphanum || c = '_' || c = '-'

/-- Take one part of a key. -/
def keyPart : Reader String := do
  if ← .takes '"' then basicString
  else if ← .takes apostrophe then literalString
  else
    match ← Scanner.takeWhile inBareKey with
    | [] => refuse
    | part => return String.ofList part

/-- Take a key: parts between dots.  The value is the last part behind the ones before it. -/
def key : Reader (List String × String) := do
  let first ← keyPart
  let parts ← Scanner.iterate (fun parts : List String => do
    blanks
    if ← .takes '.' then
      blanks
      return ((← keyPart) :: parts, true)
    else return (parts, false)) [first]
  match parts with
  | [] => refuse
  | last :: before => return (before.reverse, last)

/-! ### Numbers and truth values -/

/-- Digits without the underscores between them; `afterDigit` says whether a digit came right
before. -/
def ungroup (isDigit : Char → Bool) : Bool → List Char → Option (List Char)
  | afterDigit, [] => if afterDigit then some [] else none
  | afterDigit, c :: s =>
    if c = '_' then
      if afterDigit then ungroup isDigit false s else none
    else if isDigit c then (ungroup isDigit true s).map (c :: ·)
    else none

/-- The digits of a group, which has at least one. -/
def digits? (s : List Char) : Option (List Char) :=
  ungroup Json.isDigit false s

/-- The digits before the point: a zero only stands alone. -/
def whole? (s : List Char) : Option (List Char) :=
  match digits? s with
  | some ('0' :: _ :: _) => none
  | found => found

/-- The sign in front of a text, and the rest. -/
def splitSign : List Char → Bool × List Char
  | '-' :: s => (true, s)
  | '+' :: s => (false, s)
  | s => (false, s)

/-- The number that digits of a base stand for. -/
def based? (base : Nat) (s : List Char) : Option Int := do
  let isDigit c := match Json.hexValue? c with
    | some d => decide (d < base)
    | none => false
  let digits ← ungroup isDigit false s
  return digits.foldl (fun n c => n * base + (Json.hexValue? c).getD 0) (0 : Nat)

/-- The integer that a word stands for. -/
def integer? (word : List Char) : Option Int :=
  match word with
  | '0' :: 'x' :: s => based? 16 s
  | '0' :: 'o' :: s => based? 8 s
  | '0' :: 'b' :: s => based? 2 s
  | _ =>
    let (negative, s) := splitSign word
    (whole? s).map fun digits =>
      let n : Int := Json.digitsValue digits
      if negative then -n else n

/-- Whether a character belongs to a group of digits. -/
def inGroup (c : Char) : Bool :=
  c = '_' || Json.isDigit c

/-- The exponent that a text stands for; nothing stands for zero. -/
def exponent? (s : List Char) : Option Int :=
  match s with
  | [] => some 0
  | c :: s =>
    if c = 'e' || c = 'E' then
      let (negative, s) := splitSign s
      (digits? s).map fun digits =>
        let n : Int := Json.digitsValue digits
        if negative then -n else n
    else none

/-- The double that a word with a point or an exponent stands for.  It has to be in range. -/
def float? (word : List Char) : Option Float := do
  let (negative, s) := splitSign word
  let whole ← whole? (s.takeWhile inGroup)
  let s := s.dropWhile inGroup
  let (places, s) ← match s with
    | '.' :: s => (digits? (s.takeWhile inGroup)).map fun places => (places, s.dropWhile inGroup)
    | _ => some ([], s)
  let e ← exponent? s
  let x := (⟨negative, Json.digitsValue (whole ++ places), e - places.length⟩ :
    Number.Decimal).toDouble
  match Number.ofDouble x with
  | .infinite _ => none
  | _ => some x

/-- The double that a word without digits stands for. -/
def special? (word : List Char) : Option Float :=
  let (negative, s) := splitSign word
  let sign : Float := if negative then -1 else 1
  if s = "inf".toList then some (sign / 0)
  else if s = "nan".toList then some (sign * (0 / 0))
  else none

/-! ### Dates and times -/

/-- The number of exactly `count` digits in front, and the rest. -/
def leading? (count : Nat) (s : List Char) : Option (Nat × List Char) :=
  let front := s.take count
  if front.length = count && front.all Json.isDigit then
    some (Json.digitsValue front, s.drop count)
  else none

/-- The rest behind a character, which has to be in front. -/
def behind? (c : Char) : List Char → Option (List Char)
  | [] => none
  | first :: s => if first = c then some s else none

/-- The number of days of a month. -/
def daysIn (year month : Nat) : Nat :=
  if month = 2 then
    if year % 4 = 0 && (year % 100 ≠ 0 || year % 400 = 0) then 29 else 28
  else if [4, 6, 9, 11].contains month then 30
  else 31

/-- The rest behind a date. -/
def behindDate? (s : List Char) : Option (List Char) := do
  let (year, s) ← leading? 4 s
  let (month, s) ← leading? 2 (← behind? '-' s)
  let (day, s) ← leading? 2 (← behind? '-' s)
  if 1 ≤ month && month ≤ 12 && 1 ≤ day && day ≤ daysIn year month then some s else none

/-- The rest behind hours and minutes. -/
def behindMinutes? (s : List Char) : Option (List Char) := do
  let (hour, s) ← leading? 2 s
  let (minute, s) ← leading? 2 (← behind? ':' s)
  if hour ≤ 23 && minute ≤ 59 then some s else none

/-- The rest behind a time.  Seconds and their fraction may be missing. -/
def behindTime? (s : List Char) : Option (List Char) := do
  match ← behindMinutes? s with
  | ':' :: s =>
    let (second, s) ← leading? 2 s
    if second ≤ 60 then
      match s with
      | '.' :: s =>
        if (s.takeWhile Json.isDigit).isEmpty then none else some (s.dropWhile Json.isDigit)
      | s => some s
    else none
  | s => some s

/-- Whether a text is nothing or an offset from the time at Greenwich. -/
def isOffset : List Char → Bool
  | [] => true
  | c :: s =>
    if c = 'Z' || c = 'z' then s.isEmpty
    else (c = '+' || c = '-') && behindMinutes? s = some []

/-- Whether a word is a date. -/
def isDate (word : List Char) : Bool :=
  behindDate? word = some []

/-- Whether a word is a date, a time, or both. -/
def isMoment (word : List Char) : Bool :=
  match behindDate? word with
  | none => behindTime? word = some []
  | some [] => true
  | some (c :: s) =>
    (c = 'T' || c = 't' || c = ' ') && (behindTime? s).any isOffset

/-! ### Words -/

/-- Whether a character may stand in a word: a number, a truth value, a date or a time. -/
def inWord (c : Char) : Bool :=
  c.isAlphanum || c = '_' || c = '-' || c = '+' || c = '.' || c = ':'

/-- The value of a word.  A date or a time is an object with one member, which has a name of its
own. -/
def word? (word : List Char) : Option Json.Value :=
  if word = "true".toList then some (.bool true)
  else if word = "false".toList then some (.bool false)
  else if isMoment word then
    some (.object [("$__toml_private_datetime", .text (String.ofList word))])
  else match integer? word with
    | some i => some (.number (.integer i))
    | none => ((special? word).or (float? word)).map fun x => .number (.double x)

/-- Take a word.  A blank may stand between a date and a time. -/
def word : Reader (List Char) := do
  let first ← Scanner.takeWhile inWord
  if isDate first && (← .takes ' ') then
    match ← Scanner.takeWhile inWord with
    | [] => return first
    | time => return first ++ ' ' :: time
  else return first

end DialogChart.Toml
