import DialogChart.Number.Decimal

/-!
# JSON values and their texts

A value is a tree of lists and objects over texts, numbers and the three literals.  A number
remembers in which form it is held, because that decides its digits: integers are written in
full, singles and doubles by the fewest digits that read back, and `null` stands for a number
without digits.

There are two texts of a value.  The compact one has no blanks.  The pretty one puts every
item on a line of its own, indented by two spaces per level.
-/

namespace DialogChart.Json

/-- A number together with the form in which it is held. -/
inductive Numeral where
  | integer (i : Int)
  | double (x : Float)
  | single (x : Float32)

/-- A JSON value.  The members of an object are kept in order. -/
inductive Value where
  | null
  | bool (b : Bool)
  | number (n : Numeral)
  | text (s : String)
  | list (items : List Value)
  | object (members : List (String × Value))

/-! ### Leaves -/

/-- The escape of a character inside a string. -/
def escapedChar (c : Char) : List Char :=
  match c with
  | '"' => ['\\', '"']
  | '\\' => ['\\', '\\']
  | '\x08' => ['\\', 'b']
  | '\x0c' => ['\\', 'f']
  | '\n' => ['\\', 'n']
  | '\r' => ['\\', 'r']
  | '\t' => ['\\', 't']
  | _ =>
    if c.toNat < 0x20 then
      ['\\', 'u', '0', '0', Nat.digitChar (c.toNat / 16), Nat.digitChar (c.toNat % 16)]
    else [c]

/-- A text as a JSON string. -/
def stringText (s : String) : String :=
  String.ofList ('"' :: s.toList.flatMap escapedChar ++ ['"'])

/-- The text of a number. -/
def Numeral.text : Numeral → String
  | .integer i => toString i
  | .double x => (Number.doubleText? x).getD "null"
  | .single x => (Number.singleText? x).getD "null"

/-- The text of a truth value. -/
def boolText (b : Bool) : String :=
  if b then "true" else "false"

/-! ### Compact text -/

mutual

/-- The text without blanks. -/
def Value.compact : Value → String
  | .null => "null"
  | .bool b => boolText b
  | .number n => n.text
  | .text s => stringText s
  | .list [] => "[]"
  | .list (v :: vs) => "[" ++ v.compact ++ compactItems vs
  | .object [] => "\x7b\x7d"
  | .object ((k, v) :: ms) => "\x7b" ++ stringText k ++ ":" ++ v.compact ++ compactMembers ms

/-- The items after the first one, up to and with the bracket. -/
def compactItems : List Value → String
  | [] => "]"
  | v :: vs => "," ++ v.compact ++ compactItems vs

/-- The members after the first one, up to and with the brace. -/
def compactMembers : List (String × Value) → String
  | [] => "\x7d"
  | (k, v) :: ms => "," ++ stringText k ++ ":" ++ v.compact ++ compactMembers ms

end

/-! ### Pretty text -/

/-- A line break and the indentation of a level. -/
def newline (level : Nat) : String :=
  String.ofList ('\n' :: List.replicate (2 * level) ' ')

mutual

/-- The text with every item on a line of its own; `level` is the level of the value. -/
def Value.prettyAt (level : Nat) : Value → String
  | .null => "null"
  | .bool b => boolText b
  | .number n => n.text
  | .text s => stringText s
  | .list [] => "[]"
  | .list (v :: vs) =>
    "[" ++ newline (level + 1) ++ v.prettyAt (level + 1) ++ prettyItems level vs
  | .object [] => "\x7b\x7d"
  | .object ((k, v) :: ms) =>
    "\x7b" ++ newline (level + 1) ++ stringText k ++ ": " ++ v.prettyAt (level + 1) ++
      prettyMembers level ms

/-- The items after the first one of a list at `level`, up to and with the bracket. -/
def prettyItems (level : Nat) : List Value → String
  | [] => newline level ++ "]"
  | v :: vs => "," ++ newline (level + 1) ++ v.prettyAt (level + 1) ++ prettyItems level vs

/-- The members after the first one of an object at `level`, up to and with the brace. -/
def prettyMembers (level : Nat) : List (String × Value) → String
  | [] => newline level ++ "\x7d"
  | (k, v) :: ms =>
    "," ++ newline (level + 1) ++ stringText k ++ ": " ++ v.prettyAt (level + 1) ++
      prettyMembers level ms

end

/-- The text with every item on a line of its own. -/
def Value.pretty (v : Value) : String :=
  v.prettyAt 0

end DialogChart.Json
