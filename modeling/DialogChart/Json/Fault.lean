import DialogChart.Number.Decimal
import DialogChart.Text.Quoted

/-!
# Why a document is refused

A document is refused for a cause at a position.  Causes fall into three categories: the text
is not JSON, it ends too early, or it is JSON of the wrong shape.  The wording of every cause
stands in `Cause.message`.

Positions are lines and columns of the UTF-8 bytes of the document.  `Position.span?` goes back
from a position to the byte that a reader should look at.
-/

namespace DialogChart.Json

/-- The kind of value that was found where another one was expected. -/
inductive Found where
  | null
  | bool (b : Bool)
  | integer (i : Int)
  | floating (x : Float)
  | text (s : String)
  | list
  | object

/-- How a message names a value that was found. -/
def Found.message : Found → String
  | .null => "null"
  | .bool true => "boolean `true`"
  | .bool false => "boolean `false`"
  | .integer i => "integer `" ++ toString i ++ "`"
  | .floating x => "floating point `" ++ Number.doubleText x ++ "`"
  | .text s => "string " ++ Text.quoted s
  | .list => "sequence"
  | .object => "map"

/-- Why a document is refused. -/
inductive Cause where
  | endInValue
  | endInList
  | endInObject
  | endInString
  | expectedColon
  | expectedCommaInList
  | expectedCommaInObject
  | expectedLiteral
  | expectedValue
  | invalidEscape
  | invalidNumber
  | numberOutOfRange
  | loneSurrogate
  | unfinishedSurrogate
  | controlCharacter
  | keyNotString
  | trailingComma
  | trailingCharacters
  | tooDeep
  | wrongType (found : Found) (expected : String)
  | unknownChoice (found : String) (choices : List String)
  | missingField (name : String)
  | repeatedField (name : String)
  | tooFewItems (present : Nat) (record : String) (fields : Nat)
  | noAlternative (kind : String)

/-- How a list of choices is named. -/
def choicesText (choices : List String) : String :=
  let ticked := choices.map fun c => "`" ++ c ++ "`"
  match ticked with
  | [a] => a
  | [a, b] => a ++ " or " ++ b
  | _ => "one of " ++ ", ".intercalate ticked

/-- The wording of a cause. -/
def Cause.message : Cause → String
  | .endInValue => "EOF while parsing a value"
  | .endInList => "EOF while parsing a list"
  | .endInObject => "EOF while parsing an object"
  | .endInString => "EOF while parsing a string"
  | .expectedColon => "expected `:`"
  | .expectedCommaInList => "expected `,` or `]`"
  | .expectedCommaInObject => "expected `,` or `\x7d`"
  | .expectedLiteral => "expected ident"
  | .expectedValue => "expected value"
  | .invalidEscape => "invalid escape"
  | .invalidNumber => "invalid number"
  | .numberOutOfRange => "number out of range"
  | .loneSurrogate => "lone leading surrogate in hex escape"
  | .unfinishedSurrogate => "unexpected end of hex escape"
  | .controlCharacter => "control character (\\u0000-\\u001F) found while parsing a string"
  | .keyNotString => "key must be a string"
  | .trailingComma => "trailing comma"
  | .trailingCharacters => "trailing characters"
  | .tooDeep => "recursion limit exceeded"
  | .wrongType found expected => "invalid type: " ++ found.message ++ ", expected " ++ expected
  | .unknownChoice found choices =>
    "unknown variant `" ++ found ++ "`, expected " ++ choicesText choices
  | .missingField name => "missing field `" ++ name ++ "`"
  | .repeatedField name => "duplicate field `" ++ name ++ "`"
  | .tooFewItems present record fields =>
    "invalid length " ++ toString present ++ ", expected struct " ++ record ++ " with " ++
      toString fields ++ (if fields = 1 then " element" else " elements")
  | .noAlternative kind => "data did not match any variant of untagged enum " ++ kind

/-- What is wrong with a refused document. -/
inductive Category where
  /-- The text is not JSON. -/
  | malformed
  /-- The text ends before the value does. -/
  | truncated
  /-- The text is JSON, but its shape is not the expected one. -/
  | mismatched
  deriving DecidableEq, Repr

/-- The category of a cause. -/
def Cause.category : Cause → Category
  | .endInValue | .endInList | .endInObject | .endInString => .truncated
  | .wrongType .. | .unknownChoice .. | .missingField .. | .repeatedField .. | .tooFewItems ..
  | .noAlternative .. => .mismatched
  | _ => .malformed

/-! ### Positions -/

/-- A place in a document: lines are counted from one, and the column is the number of bytes
since the last line break. -/
structure Position where
  line : Nat
  column : Nat
  deriving DecidableEq, Repr

/-- The byte that ends a line. -/
def lineBreak : UInt8 := 10

/-- The position after the given bytes. -/
def Position.after (bytes : List UInt8) : Position where
  line := 1 + bytes.count lineBreak
  column := (bytes.reverse.takeWhile (· != lineBreak)).length

/-- The position of a byte index of a source. -/
def Position.ofIndex (source : List UInt8) (index : Nat) : Position :=
  .after (source.take index)

/-- The number of bytes of a text. -/
def bytes (s : List Char) : Nat :=
  s.foldr (fun c count => c.utf8Size + count) 0

/-- The lines of a text that has one more character in front. -/
def prepend (c : Char) : List (List Char) → List (List Char)
  | [] => [[c]]
  | line :: lines => if c = '\n' then [c] :: line :: lines else (c :: line) :: lines

/-- The lines of a text, each with the line break that ends it.  What follows the last line
break is a line if it is not empty. -/
def lines (s : List Char) : List (List Char) :=
  s.foldr prepend []

/-- The number of bytes in the first lines of a text. -/
def bytesOfLines (count : Nat) (s : List Char) : Nat :=
  ((lines s).take count).foldr (fun line total => bytes line + total) 0

/-- A range of bytes. -/
structure Span where
  offset : Nat
  length : Nat
  deriving DecidableEq, Repr

/-- The byte of a source that a position points back at: the last one before it on its line.
The span is empty exactly at the end of the source.  A position without a line has none. -/
def Position.span? (p : Position) (source : String) : Option Span :=
  if p.line = 0 then none
  else
    let offset := min (bytesOfLines (p.line - 1) source.toList + (p.column - 1))
      source.utf8ByteSize
    some ⟨offset, if offset < source.utf8ByteSize then 1 else 0⟩

/-- Why and where a document is refused. -/
structure Refusal where
  cause : Cause
  position : Position

/-- The wording of a refusal, with its position. -/
def Refusal.message (r : Refusal) : String :=
  r.cause.message ++ " at line " ++ toString r.position.line ++ " column " ++
    toString r.position.column

/-! ### Faults of a reader

While a document is being read, a fault is placed by the number of bytes that lie behind it,
which does not depend on what was read before.  A fault of shape is found out of place: it is
raised with the rest of the text at hand, and the list or object around it fixes its place
once its own end has been looked for. -/

/-- A reason to stop reading. -/
inductive Fault where
  | placed (cause : Cause) (behind : Nat)
  | loose (cause : Cause) (rest : List Char)

namespace Fault

/-- A fault at the cursor. -/
def here (cause : Cause) (rest : List Char) : Fault :=
  .placed cause (bytes rest)

/-- A fault `n` bytes behind the cursor, or at the end of the text. -/
def ahead (n : Nat) (cause : Cause) (rest : List Char) : Fault :=
  .placed cause (bytes rest - n)

/-- A fault at the next byte, or at the end of the text. -/
def next (cause : Cause) (rest : List Char) : Fault :=
  ahead 1 cause rest

/-- The refusal of a source for a fault. -/
def refusal (source : String) : Fault → Refusal
  | .placed cause behind => ⟨cause, .ofIndex source.toUTF8.toList (source.utf8ByteSize - behind)⟩
  | .loose cause rest => ⟨cause, .ofIndex source.toUTF8.toList (source.utf8ByteSize - bytes rest)⟩

end Fault

end DialogChart.Json
