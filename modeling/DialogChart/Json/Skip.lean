import DialogChart.Json.Bracket

/-!
# Skipping a value

A value that nobody asked for is checked for its syntax only: its numbers have no range, its
strings may hold lone surrogates, and brackets may nest without a limit.  The open brackets are
kept in a list, innermost first, so nesting costs no recursion.
-/

namespace DialogChart.Json

/-! ### Leaves -/

/-- Skip a string up to and with its closing quote. -/
def scanSkipped : List Char → Except Fault (Unit × List Char)
  | [] => .error (.here .endInString [])
  | '"' :: s => .ok ((), s)
  | '\\' :: 'u' :: a :: b :: c :: d :: s =>
    match unit? a b c d with
    | none => .error (unitFault (a :: b :: c :: d :: s))
    | some _ => scanSkipped s
  | '\\' :: 'u' :: s => .error (unitFault s)
  | '\\' :: c :: s =>
    match letterEscape? c with
    | some _ => scanSkipped s
    | none => .error (.ahead 1 .invalidEscape (c :: s))
  | ['\\'] => .error (.here .endInString [])
  | c :: s =>
    if c.toNat < 0x20 then .error (.here .controlCharacter (c :: s)) else scanSkipped s

/-- Skipping a string never lengthens the text. -/
theorem length_scanSkipped_le {s r : List Char} {u : Unit} (h : scanSkipped s = .ok (u, r)) :
    r.length ≤ s.length := by
  fun_induction scanSkipped s <;> simp_all <;> omega

namespace Reader

open Scanner (look advance takes)

/-- Skip a string whose opening quote has been taken. -/
def skipString : Reader Unit where
  run := scanSkipped
  length_le h := length_scanSkipped_le h

/-- Skip a digit that has to be there and those behind it. -/
def skipDigits (missing : Cause → Reader Unit) : Reader Unit := do
  match ← look with
  | none => stopHere .invalidNumber
  | some c =>
    if isDigit c then
      let _ ← digits
    else missing .invalidNumber

/-- Skip an exponent, if there is one. -/
def skipExponent : Reader Unit := do
  match ← look with
  | some 'e' | some 'E' =>
    advance
    let _ ← exponentSign
    skipDigits stopBehind
  | _ => return ()

/-- Skip what may follow the digits before the point. -/
def skipFraction : Reader Unit := do
  if ← takes '.' then skipDigits stopNext
  skipExponent

/-- Skip a number whose first digit has been taken. -/
def skipNumber (first : Char) : Reader Unit := do
  match first, ← look with
  | '0', some c => if isDigit c then stopNext .invalidNumber else skipFraction
  | _, _ =>
    let _ ← digits
    skipFraction

/-- Skip a number whose sign has been taken. -/
def skipSigned : Reader Unit := do
  match ← look with
  | none => stopHere .invalidNumber
  | some c =>
    if isDigit c then
      advance
      skipNumber c
    else stopBehind .invalidNumber

/-- Skip a literal, a string or a number whose first character has been taken. -/
def skipLeaf (first : Char) : Reader Unit :=
  if first = 'n' then word "ull"
  else if first = 't' then word "rue"
  else if first = 'f' then word "alse"
  else if first = '"' then skipString
  else if first = '-' then skipSigned
  else skipNumber first

end Reader

/-- Whether a character starts a literal, a string or a number. -/
def startsLeaf (c : Char) : Bool :=
  c = 'n' || c = 't' || c = 'f' || c = '"' || c = '-' || isDigit c

/-! ### Brackets -/

/-- What the skipper does next. -/
inductive Skipping where
  /-- Skip a value. -/
  | value
  /-- Skip the key of a member, then a value. -/
  | key
  /-- Look for the end of the innermost bracket or for a comma. -/
  | separator

/-- What comes first inside a bracket, and behind a comma. -/
def Skipping.item : Bracket → Skipping
  | .list => .value
  | .object => .key

/-- The bracket that a character opens. -/
def Bracket.ofOpening? (c : Char) : Option Bracket :=
  if c = Bracket.opening .list then some .list
  else if c = Bracket.opening .object then some .object
  else none

/-- Skip up to the end of the value, inside the given open brackets. -/
def skipAll (task : Skipping) (opened : List Bracket) (s : List Char) :
    Except Fault (Unit × List Char) :=
  match task, opened with
  | .separator, [] => .ok ((), s)
  | .separator, b :: outer =>
    match _hs : Reader.dropSpace s with
    | [] => .error (.next b.ended [])
    | c :: r =>
      if c = ',' then skipAll (.item b) (b :: outer) r
      else if c = b.closing then skipAll .separator outer r
      else .error (.next b.unseparated (c :: r))
  | .key, opened =>
    match _hs : Reader.dropSpace s with
    | [] => .error (.next .endInObject [])
    | c :: r =>
      if c = '"' then
        match _hk : (do Reader.skipString; Reader.colon).run r with
        | .error e => .error e
        | .ok (_, t) => skipAll .value opened t
      else .error (.next .keyNotString (c :: r))
  | .value, opened =>
    match _hs : Reader.dropSpace s with
    | [] => .error (.next .endInValue [])
    | c :: r =>
      match Bracket.ofOpening? c with
      | some b =>
        match _hr : Reader.dropSpace r with
        | [] => .error (.next b.ended [])
        | d :: t =>
          if d = b.closing then skipAll .separator opened t
          else skipAll (.item b) (b :: opened) (d :: t)
      | none =>
        if startsLeaf c then
          match _hl : (Reader.skipLeaf c).run r with
          | .error e => .error e
          | .ok (_, t) => skipAll .separator opened t
        else .error (.next .expectedValue (c :: r))
termination_by s.length
decreasing_by
  · exact Reader.length_lt_of_dropSpace _hs
  · exact Reader.length_lt_of_dropSpace _hs
  · exact Nat.lt_of_le_of_lt (Scanner.length_le _ _hk) (Reader.length_lt_of_dropSpace _hs)
  · exact Nat.lt_trans (Reader.length_lt_of_dropSpace _hr) (Reader.length_lt_of_dropSpace _hs)
  · exact Nat.lt_of_le_of_lt (Reader.length_lt_of_dropSpace _hr)
      (Reader.length_lt_of_dropSpace _hs)
  · exact Nat.lt_of_le_of_lt (Scanner.length_le _ _hl) (Reader.length_lt_of_dropSpace _hs)

/-- Skipping a value never lengthens the text. -/
theorem length_skipAll_le {task : Skipping} {opened : List Bracket} {s r : List Char} {u : Unit}
    (h : skipAll task opened s = .ok (u, r)) : r.length ≤ s.length := by
  fun_induction skipAll task opened s with
  | case1 s =>
    simp only [Except.ok.injEq, Prod.mk.injEq, true_and] at h
    exact Nat.le_of_eq (congrArg List.length h.symm)
  | case3 s b outer r' hs ih | case4 s b outer r' hs hc ih =>
    exact Nat.le_trans (ih h) (Nat.le_of_lt (Reader.length_lt_of_dropSpace hs))
  | case8 s opened r' v t hk hs ih =>
    exact Nat.le_trans (ih h) (Nat.le_trans (Scanner.length_le _ hk)
      (Nat.le_of_lt (Reader.length_lt_of_dropSpace hs)))
  | case12 s opened c r' hs b hb t hr ih =>
    exact Nat.le_trans (ih h) (Nat.le_trans (Nat.le_of_lt (Reader.length_lt_of_dropSpace hr))
      (Nat.le_of_lt (Reader.length_lt_of_dropSpace hs)))
  | case13 s opened c r' hs b hb d t hr hd ih =>
    exact Nat.le_trans (ih h) (Nat.le_trans (Reader.length_lt_of_dropSpace hr)
      (Nat.le_of_lt (Reader.length_lt_of_dropSpace hs)))
  | case15 s opened c r' hs hb hc v t hl ih =>
    exact Nat.le_trans (ih h) (Nat.le_trans (Scanner.length_le _ hl)
      (Nat.le_of_lt (Reader.length_lt_of_dropSpace hs)))
  | _ => simp at h

/-- Skip a value. -/
def Reader.skip : Reader Unit where
  run := skipAll .value []
  length_le h := length_skipAll_le h

end DialogChart.Json
