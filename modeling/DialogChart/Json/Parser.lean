import DialogChart.Json.Skip
import DialogChart.Table

/-!
# Reading any value

The reader of values of no particular shape.  A key that is repeated in an object keeps its
first place and takes its last value.
-/

namespace DialogChart.Json

namespace Reader

open Scanner (advance)

/-- Read a literal, a string or a number by its first character, which is not taken. -/
def leaf (numbers : NumberReader) (c : Char) : Reader Value :=
  if c = 'n' then do
    advance
    word "ull"
    return .null
  else if c = 't' then do
    advance
    word "rue"
    return .bool true
  else if c = 'f' then do
    advance
    word "alse"
    return .bool false
  else if c = '"' then do
    advance
    return .text (← stringBody)
  else if c = '-' || isDigit c then do
    return .number (← number numbers)
  else stopNext .expectedValue

/-- Read the items of a list up to its closing bracket. -/
def items {α : Type} (item : Reader α) : Reader (List α) := do
  let found ← Bracket.list.fold (fun found => do return (← item) :: found) []
  return found.reverse

/-- Read the members of an object up to its closing bracket. -/
def members {α : Type} (member : Reader α) : Reader (Table α) :=
  Bracket.object.fold (fun found => do
    let name ← key
    colon
    return found.insert name (← member)) ∅

/-- Read a value in which up to `depth` brackets may be open at once. -/
def any (numbers : NumberReader) (depth : Nat) : Reader Value :=
  value fun c =>
    if c = Bracket.opening .list then
      match depth with
      | 0 => stopNext .tooDeep
      | depth + 1 => do
        advance
        return .list (← Bracket.list.closed (items (any numbers depth)))
    else if c = Bracket.opening .object then
      match depth with
      | 0 => stopNext .tooDeep
      | depth + 1 => do
        advance
        return .object (← Bracket.object.closed (members (any numbers depth))).entries
    else leaf numbers c

/-- Read a whole text: behind the value there are only blanks. -/
def whole {α : Type} (p : Reader α) (source : String) : Except Refusal α :=
  let all : Reader α := do
    let a ← p
    match ← token with
    | none => return a
    | some _ => stopNext .trailingCharacters
  match all.run source.toList with
  | .ok (a, _) => .ok a
  | .error fault => .error (fault.refusal source)

end Reader

/-- The value that a text stands for. -/
def Value.parse (numbers : NumberReader) (source : String) : Except Refusal Value :=
  (Reader.any numbers depthLimit).whole source

end DialogChart.Json
