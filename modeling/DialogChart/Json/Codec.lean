import DialogChart.Json.Parser

/-!
# Documents of a given shape

A codec writes the values of a type as JSON and reads them back.  Reading follows the shape
rather than a tree of values: a fault is found at the first character that cannot belong to a
document of that shape, and the message names what was expected there.

A record is written as an object with one member per field, in the order of its declaration.
It is read from an object, where unknown members are skipped, or from a list of its fields.
-/

namespace DialogChart.Json

/-- How the values of a type are written and read; the reader is told how numbers are read and how
many brackets may still be opened. -/
structure Codec (α : Type) where
  write : α → Value
  read : NumberReader → Nat → Reader α

/-- The whole document for a value, without blanks. -/
def Codec.compact {α : Type} (c : Codec α) (a : α) : String :=
  (c.write a).compact

/-- The value of a whole document. -/
def Codec.parse {α : Type} (c : Codec α) (numbers : NumberReader) (source : String) :
    Except Refusal α :=
  (c.read numbers depthLimit).whole source

/-! ### Values of the wrong type -/

/-- What a message calls a number. -/
def Numeral.found : Numeral → Found
  | .integer i => .integer i
  | .double x => .floating x
  | .single x => .floating x.toFloat

/-- What a message calls a value. -/
def Value.found : Value → Found
  | .null => .null
  | .bool b => .bool b
  | .number n => n.found
  | .text s => .text s
  | .list _ => .list
  | .object _ => .object

/-- Stop at a value that is not of the expected type, by its first character.  The value is
taken, unless it has brackets. -/
def Reader.mismatch {α : Type} (numbers : NumberReader) (expected : String) (c : Char) :
    Reader α := do
  if c = Bracket.opening .list then stopHere (.wrongType .list expected)
  else if c = Bracket.opening .object then stopHere (.wrongType .object expected)
  else
    let v ← leaf numbers c
    stopHere (.wrongType v.found expected)

namespace Codec

variable {α σ : Type}

/-! ### Texts and numbers -/

/-- Texts. -/
def text : Codec String where
  write s := .text s
  read numbers _ := .value fun c => do
    if c = '"' then
      .advance
      .stringBody
    else .mismatch numbers "a string" c

/-- The double nearest to a numeral. -/
def toDouble : Numeral → Float
  | .integer i => Number.double (i < 0) i.natAbs 1
  | .double x => x
  | .single x => x.toFloat

/-- Doubles. -/
def double : Codec Float where
  write x := .number (.double x)
  read numbers _ := .value fun c => do
    if c = '-' || isDigit c then return toDouble (← .number numbers)
    else .mismatch numbers "f64" c

/-- A codec for another view of the same values. -/
def map {β : Type} (c : Codec α) (there : α → β) (back : β → α) : Codec β where
  write b := c.write (back b)
  read numbers depth := do return there (← c.read numbers depth)

/-! ### Lists and tables -/

/-- Lists of values. -/
def list (c : Codec α) : Codec (List α) where
  write as := .list (as.map c.write)
  read numbers depth := .value fun b =>
    if b = Bracket.opening .list then
      Bracket.list.enclose depth fun depth => .items (c.read numbers depth)
    else .mismatch numbers "a sequence" b

/-- Tables of values. -/
def table (c : Codec α) : Codec (Table α) where
  write t := .object (t.entries.map fun e => (e.1, c.write e.2))
  read numbers depth := .value fun b =>
    if b = Bracket.opening .object then
      Bracket.object.enclose depth fun depth => .members (c.read numbers depth)
    else .mismatch numbers "a map" b

/-! ### Choices

A choice is written as its name.  It is read from its name, or from an object that maps the
name to `null`. -/

/-- The choice of a name. -/
def pick (choices : List (String × α)) (name : String) : Reader α :=
  match choices.lookup name with
  | some a => return a
  | none => .stopHere (.unknownChoice name (choices.map Prod.fst))

/-- Read `null`. -/
def null (numbers : NumberReader) : Reader Unit :=
  .value fun c => do
    if c = 'n' then
      .advance
      .word "ull"
    else .mismatch numbers "unit" c

/-- Read a choice behind its opening brace. -/
def tagged (numbers : NumberReader) (choices : List (String × α)) : Reader α := do
  match ← Reader.token with
  | some '"' =>
    .advance
    let a ← pick choices (← .stringBody)
    .colon
    null numbers
    match ← Reader.token with
    | some '\x7d' =>
      .advance
      return a
    | some _ => .stopHere .expectedValue
    | none => .stopHere .endInObject
  | some '\x7d' => .stopNext .expectedValue
  | some _ => .stopNext .keyNotString
  | none => .stopNext .endInObject

/-- One of several named choices. -/
def choice (choices : List (String × α)) (name : α → String) : Codec α where
  write a := .text (name a)
  read numbers depth := .value fun c => do
    if c = '"' then
      .advance
      pick choices (← .stringBody)
    else if c = Bracket.opening .object then
      match depth with
      | 0 => .stopNext .tooDeep
      | _ + 1 =>
        .advance
        tagged numbers choices
    else .stopNext .expectedValue

/-- A value that is told by its own shape: any value is read, and those without a meaning are
refused. -/
def shaped (kind : String) (write : α → Value) (meaning : Value → Option α) : Codec α where
  write := write
  read numbers depth := do
    match meaning (← Reader.any numbers depth) with
    | some a => return a
    | none => .stopLoose (.noAlternative kind)

end Codec

/-! ### Records -/

/-- A field of a record: its name, whether it has to be there, its value if it is written, and
a reader of its value that returns the update of the record. -/
structure Field (σ : Type) where
  name : String
  required : Bool
  write : σ → Option Value
  read : NumberReader → Nat → Reader (σ → σ)

namespace Field

variable {α σ : Type}

/-- A field that is always there. -/
def mandatory (name : String) (c : Codec α) (get : σ → α) (set : α → σ → σ) : Field σ where
  name := name
  required := true
  write r := some (c.write (get r))
  read numbers depth := do return set (← c.read numbers depth)

/-- A field that may be missing; it is always written. -/
def defaulted (name : String) (c : Codec α) (get : σ → α) (set : α → σ → σ) : Field σ where
  name := name
  required := false
  write r := some (c.write (get r))
  read numbers depth := do return set (← c.read numbers depth)

/-- A field that may be missing, and that is not written when `blank` holds. -/
def sparse (name : String) (c : Codec α) (blank : α → Bool) (get : σ → α) (set : α → σ → σ) :
    Field σ where
  name := name
  required := false
  write r := if blank (get r) then none else some (c.write (get r))
  read numbers depth := do return set (← c.read numbers depth)

/-- A field that may be missing or `null`, and that is not written when it has no value. -/
def optional (name : String) (c : Codec α) (get : σ → Option α) (set : Option α → σ → σ) :
    Field σ where
  name := name
  required := false
  write r := (get r).map c.write
  read numbers depth := .value fun b => do
    if b = 'n' then
      .advance
      .word "ull"
      return set none
    else return set (some (← c.read numbers depth))

end Field

/-- Records of a name, built from a template by the updates of their fields.  The required
fields come first. -/
structure Shape (σ : Type) where
  name : String
  template : σ
  fields : List (Field σ)

namespace Shape

variable {σ : Type}

/-- Read the fields in order, as items of a list; `present` items have been read. -/
def readFields (shape : Shape σ) (numbers : NumberReader) (depth : Nat) :
    List (Field σ) → Nat → σ → Reader σ
  | [], _, r => return r
  | f :: fs, present, r => do
    if ← Bracket.list.more (present = 0) then
      let update ← f.read numbers depth
      readFields shape numbers depth fs (present + 1) (update r)
    else if (f :: fs).any (·.required) then
      .stopLoose (.tooFewItems present shape.name shape.fields.length)
    else return r

/-- Read one member into a record; `seen` are the fields that have been read. -/
def readMember (shape : Shape σ) (numbers : NumberReader) (depth : Nat)
    (state : σ × List String) : Reader (σ × List String) := do
  let (r, seen) := state
  let name ← Reader.key
  match shape.fields.find? (·.name = name) with
  | some f =>
    if name ∈ seen then .stopLoose (.repeatedField name)
    else
      .colon
      let update ← f.read numbers depth
      return (update r, name :: seen)
  | none =>
    .colon
    .skip
    return (r, seen)

/-- Read the members of a record up to its closing bracket. -/
def readMembers (shape : Shape σ) (numbers : NumberReader) (depth : Nat) : Reader σ := do
  let (r, seen) ← Bracket.object.fold (shape.readMember numbers depth) (shape.template, [])
  match shape.fields.find? fun f => f.required && f.name ∉ seen with
  | some f => .stopLoose (.missingField f.name)
  | none => return r

/-- The codec of the records. -/
def codec (shape : Shape σ) : Codec σ where
  write r := .object (shape.fields.filterMap fun f => (f.write r).map fun v => (f.name, v))
  read numbers depth := .value fun b =>
    if b = Bracket.opening .list then
      Bracket.list.enclose depth fun depth =>
        shape.readFields numbers depth shape.fields 0 shape.template
    else if b = Bracket.opening .object then
      Bracket.object.enclose depth fun depth => shape.readMembers numbers depth
    else .mismatch numbers ("struct " ++ shape.name) b

end Shape

end DialogChart.Json
