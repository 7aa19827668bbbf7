import DialogChart.Toml.Scalar

/-!
# TOML documents

A document is a tree of tables over plain values, lists and inline tables.  Its lines add to
the tree one after the other.  A table may be named by a header only once, and a key may be set
only once; tables that come into being on the way to a key or to another table are marked, for
they follow rules of their own.  A header in double brackets adds a row to a list of tables, and
paths through the list lead to its last row.
-/

namespace DialogChart.Toml

open Json (Value)

/-- A node of the tree. -/
inductive Item where
  /-- A value, which cannot be added to. -/
  | value (v : Value)
  /-- A table: `implied` if no header named it, and `dotted` if a dotted key made it. -/
  | table (implied dotted : Bool) (entries : List (String × Item))
  /-- A list of tables: its last row, and the ones before it, last one first. -/
  | rows (last : List (String × Item)) (before : List (List (String × Item)))

/-- The entries of a table. -/
abbrev Items := List (String × Item)

mutual

/-- The value of a node. -/
def Item.toValue : Item → Value
  | .value v => v
  | .table _ _ entries => .object (toMembers entries)
  | .rows last before => .list (toObjects before [.object (toMembers last)])

/-- The tables of a list, last one first, in front of the ones behind them. -/
def toObjects : List Items → List Value → List Value
  | [], behind => behind
  | entries :: before, behind => toObjects before (.object (toMembers entries) :: behind)

/-- The members of a table. -/
def toMembers : Items → List (String × Value)
  | [] => []
  | (name, item) :: rest => (name, item.toValue) :: toMembers rest

end

/-- Replace the entry of a name. -/
def replace (name : String) (item : Item) (entries : Items) : Items :=
  entries.map fun e => if e.1 = name then (name, item) else e

/-- Change the table at the end of a path, making the tables on the way.  With `dotted` the
path is that of a dotted key, which may not enter a table that a header named. -/
def changeAt (dotted : Bool) (change : Items → Option Items) :
    List String → Items → Option Items
  | [], entries => change entries
  | name :: path, entries =>
    match entries.lookup name with
    | none =>
      (changeAt dotted change path []).map fun inner =>
        entries ++ [(name, .table true dotted inner)]
    | some (.table implied wasDotted inner) =>
      if dotted && !implied then none
      else
        (changeAt dotted change path inner).map fun inner =>
          replace name (.table implied wasDotted inner) entries
    | some (.rows last before) =>
      if dotted then none
      else
        (changeAt dotted change path last).map fun last =>
          replace name (.rows last before) entries
    | some (.value _) => none

/-- Set a name that is not taken. -/
def setNew (name : String) (item : Item) (entries : Items) : Option Items :=
  match entries.lookup name with
  | none => some (entries ++ [(name, item)])
  | some _ => none

/-- Set a key to a value. -/
def setKey (key : List String × String) (v : Value) (entries : Items) : Option Items :=
  changeAt true (setNew key.2 (.value v)) key.1 entries

/-- Name a table by a header.  It may be there already only if it was made on the way to
another header. -/
def nameTable (name : String) (entries : Items) : Option Items :=
  match entries.lookup name with
  | none => some (entries ++ [(name, .table false false [])])
  | some (.table true false inner) => some (replace name (.table false false inner) entries)
  | some _ => none

/-- Add a row to a list of tables. -/
def addRow (name : String) (entries : Items) : Option Items :=
  match entries.lookup name with
  | none => some (entries ++ [(name, .rows [] [])])
  | some (.rows last before) => some (replace name (.rows [] (last :: before)) entries)
  | some _ => none

/-! ### Values -/

/-- How deep lists and inline tables may nest. -/
def depthLimit : Nat := 80

/-- Read the items of a list or an inline table up to and with the closing bracket.  Items are
separated by commas, and one may follow the last item. -/
def between {σ : Type} (closing : Char) (item : σ → Reader σ) (start : σ) : Reader σ := do
  let state ← Scanner.iterate (fun state : σ => do
    gaps
    if (← .look) = some closing then return (state, false)
    else
      let state ← item state
      gaps
      return (state, ← .takes ',')) start
  gaps
  must closing
  return state

/-- Read a value in which lists and inline tables nest up to `depth` deep. -/
def value (depth : Nat) : Reader Value := do
  match ← Scanner.look with
  | none => refuse
  | some '"' =>
    .advance
    return .text (← anyString '"' true basicString)
  | some '[' =>
    match depth with
    | 0 => refuse
    | depth + 1 =>
      .advance
      let items ← between ']' (fun items : List Value => do
        return (← value depth) :: items) []
      return .list items.reverse
  | some '\x7b' =>
    match depth with
    | 0 => refuse
    | depth + 1 =>
      .advance
      let entries ← between '\x7d' (fun entries : Items => do
        let k ← key
        blanks
        must '='
        blanks
        expect (setKey k (← value depth) entries)) []
      return .object (toMembers entries)
  | some c =>
    if c = apostrophe then
      .advance
      return .text (← anyString apostrophe false literalString)
    else
      expect (word? (← word))

/-! ### Lines -/

/-- The tree so far, and the path of the table that keys are added to. -/
structure State where
  root : Items := []
  current : List String := []

/-- Read a header behind its first bracket.  Two brackets stand for a row of a list of tables. -/
def header (state : State) : Reader State := do
  let row ← .takes '['
  blanks
  let (path, name) ← key
  blanks
  must ']'
  if row then must ']'
  endOfLine
  let root ← expect (changeAt false (if row then addRow name else nameTable name) path state.root)
  return ⟨root, path ++ [name]⟩

/-- Read a key and its value. -/
def assignment (state : State) : Reader State := do
  let k ← key
  blanks
  must '='
  blanks
  let v ← value depthLimit
  endOfLine
  let root ← expect (changeAt false (setKey k v) state.current state.root)
  return { state with root := root }

/-- Read one line. -/
def line (state : State) : Reader (State × Bool) := do
  blanks
  match ← Scanner.look with
  | none => return (state, false)
  | some '[' =>
    .advance
    return (← header state, true)
  | some c =>
    if c = '#' || c = '\n' || c = '\r' then
      endOfLine
      return (state, true)
    else return (← assignment state, true)

/-- The value of a whole document, if it breaks no rule. -/
def parse (source : String) : Option Value :=
  let text := match source.toList with
    | '\ufeff' :: s => s
    | s => s
  match (Scanner.iterate line {}).run text with
  | .ok (state, []) => some (.object (toMembers state.root))
  | _ => none

end DialogChart.Toml
