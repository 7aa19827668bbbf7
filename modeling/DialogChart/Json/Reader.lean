import DialogChart.Json.Fault
import DialogChart.Scanner

/-!
# Readers of documents

A reader is a scanner that stops at a fault.  This file holds the faults by place and the
blanks between tokens.
-/

namespace DialogChart.Json

/-- A scanner that stops at a fault. -/
abbrev Reader (α : Type) := Scanner Fault α

namespace Reader

variable {α : Type}

/-- Stop at the cursor. -/
def stopHere (cause : Cause) : Reader α :=
  .stop (.here cause)

/-- Stop at the next byte. -/
def stopNext (cause : Cause) : Reader α :=
  .stop (.next cause)

/-- Stop behind the next byte, which belongs to the faulty part. -/
def stopBehind (cause : Cause) : Reader α :=
  .stop (.ahead 1 cause)

/-- Stop without a place. -/
def stopLoose (cause : Cause) : Reader α :=
  .stop (.loose cause)

/-- Whether a character is a blank between tokens. -/
def isSpace (c : Char) : Bool :=
  c = ' ' || c = '\n' || c = '\t' || c = '\r'

/-- The text behind its leading blanks. -/
def dropSpace (s : List Char) : List Char :=
  s.dropWhile isSpace

/-- Dropping blanks never lengthens the text. -/
theorem length_dropSpace_le (s : List Char) : (dropSpace s).length ≤ s.length :=
  (List.dropWhile_sublist _).length_le

/-- Behind the first character that is not blank there is less of the text. -/
theorem length_lt_of_dropSpace {s r : List Char} {c : Char} (h : dropSpace s = c :: r) :
    r.length < s.length := by
  have := length_dropSpace_le s
  rw [h] at this
  exact this

/-- Take blanks. -/
def spaces : Reader Unit where
  run s := .ok ((), dropSpace s)
  length_le h := by
    cases h
    exact length_dropSpace_le _

/-- Take blanks and look at the character behind them. -/
def token : Reader (Option Char) := do
  spaces
  .look

/-- Read a value by its first character, which is not taken.  A value has to follow. -/
def value (f : Char → Reader α) : Reader α := do
  match ← token with
  | none => stopNext .endInValue
  | some c => f c

end Reader

end DialogChart.Json
