import DialogChart.Color.Basic
import DialogChart.Color.Format
import DialogChart.Json.Token
import DialogChart.Text.Blank

/-!
# Reading colours

A colour is written as a name, as `#` and hexadecimal digits, or as `rgb(…)` with three
components and perhaps an opacity.  Names are told apart without regard to case.
-/

namespace DialogChart.Color

/-- The colours that have names. -/
def names : List String :=
  ["aliceblue", "antiquewhite", "aqua", "aquamarine", "azure", "beige", "bisque", "black",
    "blanchedalmond", "blue", "blueviolet", "brown", "burlywood", "cadetblue", "chartreuse",
    "chocolate", "coral", "cornflowerblue", "cornsilk", "crimson", "cyan", "darkblue",
    "darkcyan", "darkgoldenrod", "darkgray", "darkgreen", "darkkhaki", "darkmagenta",
    "darkolivegreen", "darkorange", "darkorchid", "darkred", "darksalmon", "darkseagreen",
    "darkslateblue", "darkslategray", "darkturquoise", "darkviolet", "deeppink", "deepskyblue",
    "dimgray", "dodgerblue", "firebrick", "floralwhite", "forestgreen", "fuchsia", "gainsboro",
    "ghostwhite", "gold", "goldenrod", "gray", "green", "greenyellow", "honeydew", "hotpink",
    "indianred", "indigo", "ivory", "khaki", "lavender", "lavenderblush", "lawngreen",
    "lemonchiffon", "lightblue", "lightcoral", "lightcyan", "lightgoldenrodyellow", "lightgray",
    "lightgreen", "lightpink", "lightsalmon", "lightseagreen", "lightskyblue",
    "lightslategray", "lightsteelblue", "lightyellow", "lime", "limegreen", "linen", "magenta",
    "maroon", "mediumaquamarine", "mediumblue", "mediumorchid", "mediumpurple",
    "mediumseagreen", "mediumslateblue", "mediumspringgreen", "mediumturquoise",
    "mediumvioletred", "midnightblue", "mintcream", "mistyrose", "moccasin", "navajowhite",
    "navy", "oldlace", "olive", "olivedrab", "orange", "orangered", "orchid", "palegoldenrod",
    "palegreen", "paleturquoise", "palevioletred", "papayawhip", "peachpuff", "peru", "pink",
    "plum", "powderblue", "purple", "rebeccapurple", "red", "rosybrown", "royalblue",
    "saddlebrown", "salmon", "sandybrown", "seagreen", "seashell", "sienna", "silver",
    "skyblue", "slateblue", "slategray", "snow", "springgreen", "steelblue", "tan", "teal",
    "thistle", "tomato", "transparent", "turquoise", "violet", "wheat", "white", "whitesmoke",
    "yellow", "yellowgreen"]

/-- Why a text is not a colour. -/
inductive Reason where
  | wrongDigits
  | notEnded
  | unknownForm
  | unknownName
  | noArguments
  | unknownComponent
  | noComma
  | notClosed
  deriving DecidableEq, Repr

/-- The wording of a reason. -/
def Reason.message : Reason → String
  | .wrongDigits => "wrong number of hex digits"
  | .notEnded => "expected end of string"
  | .unknownForm => "unknown color syntax"
  | .unknownName => "unknown color identifier"
  | .noArguments => "expected arguments"
  | .unknownComponent => "unknown color component"
  | .noComma => "expected comma"
  | .notClosed => "expected closing parenthesis"

/-! ### Hexadecimal digits -/

/-- The component of a byte. -/
def byteComponent (high low : Nat) : Component :=
  some (Number.singleOfInt (high * 16 + low) * Number.single false 1 255)

/-- The colour of hexadecimal digits: one or two for each component. -/
def ofHex : List Nat → Option Color
  | [r, g, b] => ofHex8 r r g g b b 15 15
  | [r, g, b, a] => ofHex8 r r g g b b a a
  | [r, r', g, g', b, b'] => ofHex8 r r' g g' b b' 15 15
  | [r, r', g, g', b, b', a, a'] => ofHex8 r r' g g' b b' a a'
  | _ => none
where
  /-- The colour of two digits for each component. -/
  ofHex8 (r r' g g' b b' a a' : Nat) : Option Color :=
    some (.rgb (byteComponent r r') (byteComponent g g') (byteComponent b b')
      (byteComponent a a'))

/-- Up to `limit` hexadecimal digits in front of a text, and the rest. -/
def hexDigits : Nat → List Char → List Nat × List Char
  | 0, s => ([], s)
  | _ + 1, [] => ([], [])
  | limit + 1, c :: s =>
    match Json.hexValue? c with
    | some d =>
      let (ds, rest) := hexDigits limit s
      (d :: ds, rest)
    | none => ([], c :: s)

/-! ### Tokens -/

/-- Whether a character may stand in an identifier; digits only where `digits` holds. -/
def inIdentifier (digits : Bool) (c : Char) : Bool :=
  c.isAlpha || c = '_' || c = '-' || (digits && Json.isDigit c)

/-- The characters of an identifier in front of a text, and the rest.  A digit may not come
first, nor directly behind a leading hyphen. -/
def identifierSpan (s : List Char) : List Char × List Char :=
  match s with
  | [] => ([], [])
  | a :: s =>
    if inIdentifier false a then
      match s with
      | [] => ([a], [])
      | b :: t =>
        if inIdentifier (a ≠ '-') b then
          (a :: b :: t.takeWhile (inIdentifier true), t.dropWhile (inIdentifier true))
        else ([a], s)
    else ([], a :: s)

/-- The identifier in front of a text, and the rest.  It is more than a hyphen and does not
start with two of them. -/
def identifier? (s : List Char) : Option (List Char × List Char) :=
  let (name, rest) := identifierSpan s
  match name with
  | [] | ['-'] | '-' :: '-' :: _ => none
  | _ => some (name, rest)

/-- The text behind a closed comment. -/
def closeComment? : List Char → Option (List Char)
  | [] => none
  | '*' :: '/' :: s => some s
  | _ :: s => closeComment? s

/-- Behind a comment there is less of the text, so blanks and comments come to an end. -/
theorem length_closeComment?_lt {s r : List Char} (h : closeComment? s = some r) :
    r.length < s.length := by
  fun_induction closeComment? s with
  | case1 => exact absurd h (by simp)
  | case2 s =>
    cases h
    exact Nat.lt_of_succ_lt (Nat.lt_succ_self _)
  | case3 c s hs ih => exact Nat.lt_succ_of_lt (ih h)

/-- The text behind the comments in front of it; `none` where a comment is not closed. -/
def skipComments? (s : List Char) : Option (List Char) :=
  match s with
  | '/' :: '*' :: t =>
    match _h : closeComment? t with
    | some r => skipComments? r
    | none => none
  | s => some s
termination_by s.length
decreasing_by exact Nat.lt_succ_of_lt (Nat.lt_succ_of_lt (length_closeComment?_lt _h))

/-- The text behind closed comments; an unclosed one stays. -/
def behindComments (s : List Char) : List Char :=
  match s with
  | '/' :: '*' :: t =>
    match _h : closeComment? t with
    | some r => behindComments r
    | none => s
  | s => s
termination_by s.length
decreasing_by exact Nat.lt_succ_of_lt (Nat.lt_succ_of_lt (length_closeComment?_lt _h))

/-- Whether a character is a blank between tokens. -/
def isSpace (c : Char) : Bool :=
  c = ' ' || c = '\t' || c = '\r' || c = '\n'

/-- The text behind the blanks and comments in front of it. -/
def skipSpace (s : List Char) : List Char :=
  let t := (behindComments s).dropWhile isSpace
  if _h : t.length < s.length then skipSpace t else t
termination_by s.length

/-- The text behind a character, which comments may precede; if it does not follow, the text
behind the comments. -/
def takeChar (c : Char) (s : List Char) : Bool × List Char :=
  match skipComments? s with
  | none => (false, behindComments s)
  | some t =>
    match t with
    | d :: r => if d = c then (true, r) else (false, t)
    | [] => (false, [])

/-! ### Numbers -/

/-- Whether a minus sign stands in front of a text, and the text behind the sign. -/
def sign (s : List Char) : Bool × List Char :=
  match s with
  | '+' :: r => (false, r)
  | '-' :: r => (true, r)
  | _ => (false, s)

/-- The digits behind a point in front of a text, and the rest.  A point without digits stays. -/
def places (s : List Char) : List Char × List Char :=
  match s with
  | '.' :: r =>
    let digits := r.takeWhile Json.isDigit
    if digits.isEmpty then ([], s) else (digits, r.dropWhile Json.isDigit)
  | _ => ([], s)

/-- The value of an exponent behind its letter, and the rest, if it has digits. -/
def exponentValue? (s : List Char) : Option (Int × List Char) :=
  let (negative, s) := sign s
  let digits := s.takeWhile Json.isDigit
  if digits.isEmpty then none
  else
    let e : Int := Json.digitsValue digits
    some (if negative then -e else e, s.dropWhile Json.isDigit)

/-- The exponent in front of a text, and the rest. -/
def exponent (s : List Char) : Int × List Char :=
  match s with
  | 'e' :: r | 'E' :: r => (exponentValue? r).getD (0, s)
  | _ => (0, s)

/-- A number in front of a text, and the rest: a sign, digits with at most one point, and an
exponent if it has digits. -/
def number? (s : List Char) : Option (Number.Decimal × List Char) :=
  let (negative, s) := sign s
  let whole := s.takeWhile Json.isDigit
  let (places, s) := places (s.dropWhile Json.isDigit)
  if whole.isEmpty && places.isEmpty then none
  else
    let (e, s) := exponent s
    some (⟨negative, Json.digitsValue (whole ++ places), e - places.length⟩, s)

/-- A value between zero and one. -/
def clamp (x : Float) : Float :=
  if x < 0 then 0 else if 1 < x then 1 else x

/-- Read a component: a number on a scale, a percentage, or `none`. -/
def component (scale : Float) (s : List Char) : Except Reason (Component × List Char) :=
  let s := behindComments (skipSpace s)
  match number? s with
  | some (d, '%' :: r) => .ok (some (Number.narrow (clamp (d.toDouble * 0.01))), r)
  | some (d, r) =>
    match identifier? r with
    | some _ => .error .unknownComponent
    | none => .ok (some (Number.narrow (clamp (d.toDouble * scale))), r)
  | none =>
    match identifier? s with
    | some (name, r) =>
      if name.map Char.toLower = "none".toList then .ok (none, r) else .error .unknownComponent
    | none => .error .unknownComponent

/-! ### Colours -/

/-- The scale on which red, green and blue are written. -/
def channelScale : Float := 1 / 255

/-- The text behind an opening parenthesis. -/
def openArguments (s : List Char) : Except Reason (List Char) :=
  match s with
  | '(' :: r => .ok r
  | _ => .error .noArguments

/-- The text behind a comma, if commas separate the components. -/
def separator (commas : Bool) (s : List Char) : Except Reason (List Char) :=
  if commas then
    match takeChar ',' s with
    | (true, r) => .ok r
    | (false, _) => .error .noComma
  else .ok s

/-- Read the opacity behind a comma or a slash; without them nothing shines through. -/
def opacity (commas : Bool) (s : List Char) : Except Reason (Component × List Char) :=
  match takeChar (if commas then ',' else '/') s with
  | (true, r) => component 1 r
  | (false, r) => .ok (some 1, r)

/-- The text behind a closing parenthesis. -/
def closeArguments (s : List Char) : Except Reason (List Char) :=
  match takeChar ')' s with
  | (true, r) => .ok r
  | (false, _) => .error .notClosed

/-- Read the arguments of `rgb`.  A comma behind the first component asks for commas
throughout, otherwise a slash introduces the opacity. -/
def arguments (s : List Char) : Except Reason (Color × List Char) := do
  let s ← openArguments s
  let (red, s) ← component channelScale s
  let (commas, s) := takeChar ',' (skipSpace s)
  let (green, s) ← component channelScale s
  let s ← separator commas (skipSpace s)
  let (blue, s) ← component channelScale s
  let (alpha, s) ← opacity commas (skipSpace s)
  let s ← closeArguments (skipSpace s)
  .ok (.rgb red green blue alpha, s)

/-- Identifiers up to this length are told apart without regard to case. -/
def foldedLength : Nat := 32

/-- Read a colour from the front of a text. -/
def front (s : List Char) : Except Reason (Color × List Char) :=
  match s with
  | '#' :: s =>
    let (digits, rest) := hexDigits 8 s
    match ofHex digits with
    | some color => .ok (color, rest)
    | none => .error .wrongDigits
  | _ =>
    match identifier? s with
    | none => .error .unknownForm
    | some (name, rest) =>
      let name := if name.length ≤ foldedLength then name.map Char.toLower else name
      let name := String.ofList name
      if name = "rgb" || name = "rgba" then arguments rest
      else if names.contains name then .ok (.named name, rest)
      else .error .unknownName

/-- Read a colour from a whole text, without the blanks around it. -/
def read (s : String) : Except Reason Color :=
  match front (Text.trim s.toList) with
  | .ok (color, []) => .ok color
  | .ok _ => .error .notEnded
  | .error reason => .error reason

/-- The colours of a list of texts, as far as they can be read. -/
def readAll (texts : List String) : List Color :=
  texts.filterMap fun s => (read s).toOption

/-- This way of writing colours. -/
def format : ColorFormat Color where
  read s := (read s).mapError Reason.message
  text := text
  black := .black
  read_black := by rfl
  presets := readAll presetColors
  read_presets := by rfl

/-- A colour, or the message that refuses the text. -/
def parse (s : String) : Except String Color :=
  format.parse s

end DialogChart.Color
