import DialogChart.Json.Token

/-!
# Lists and objects

Lists and objects share one shape: an opening bracket, items between commas, a closing
bracket.  `Bracket.fold` reads the items and `Bracket.enclose` reads the brackets around them.
The closing bracket is looked for even when the items failed, because a fault without a place
is placed where that search ends.
-/

namespace DialogChart.Json

/-- The two kinds of brackets. -/
inductive Bracket where
  | list
  | object
  deriving DecidableEq, Repr

namespace Bracket

/-- The bracket that opens. -/
def opening : Bracket → Char
  | .list => '['
  | .object => '\x7b'

/-- The bracket that closes. -/
def closing : Bracket → Char
  | .list => ']'
  | .object => '\x7d'

/-- The cause when the text ends between items. -/
def ended : Bracket → Cause
  | .list => .endInList
  | .object => .endInObject

/-- The cause when two items are not separated. -/
def unseparated : Bracket → Cause
  | .list => .expectedCommaInList
  | .object => .expectedCommaInObject

/-! ### Items -/

/-- Look for an item: blanks are taken, and a comma before every item but the first.  The value
says whether an item follows; if not, the closing bracket does. -/
def seek (b : Bracket) (first : Bool) (s : List Char) : Except Fault (Bool × List Char) :=
  match Reader.dropSpace s with
  | [] => .error (.next b.ended [])
  | c :: r =>
    if c = b.closing then .ok (false, c :: r)
    else if first then .ok (true, c :: r)
    else if c = ',' then
      match Reader.dropSpace r with
      | [] => .error (.next .endInValue [])
      | d :: t =>
        if d = b.closing then .error (.next .trailingComma (d :: t)) else .ok (true, d :: t)
    else .error (.next b.unseparated (c :: r))

/-- Looking for the next item never lengthens the text. -/
theorem length_seek_le {b : Bracket} {first more : Bool} {s r : List Char}
    (h : b.seek first s = .ok (more, r)) : r.length ≤ s.length := by
  have hs := Reader.length_dropSpace_le s
  simp only [seek] at h
  split at h
  · simp at h
  · rename_i c t hc
    rw [hc] at hs
    split at h
    · simp at h
      simp [← h.2] at *
      exact hs
    · split at h
      · simp at h
        simp [← h.2] at *
        exact hs
      · split at h
        · have ht := Reader.length_dropSpace_le t
          split at h
          · simp at h
          · rename_i d u hd
            rw [hd] at ht
            split at h
            · simp at h
            · simp at h
              simp [← h.2] at *
              omega
        · simp at h

/-- A second item lies behind a comma. -/
theorem length_seek_lt {b : Bracket} {s r : List Char} (h : b.seek false s = .ok (true, r)) :
    r.length < s.length := by
  have hs := Reader.length_dropSpace_le s
  simp only [seek] at h
  split at h
  · simp at h
  · rename_i c t hc
    rw [hc] at hs
    split at h
    · simp at h
    · split at h
      · rename_i hf
        simp at hf
      · split at h
        · have ht := Reader.length_dropSpace_le t
          split at h
          · simp at h
          · rename_i d u hd
            rw [hd] at ht
            split at h
            · simp at h
            · simp at h
              simp [← h] at *
              omega
        · simp at h

/-- Look for an item. -/
def more (b : Bracket) (first : Bool) : Reader Bool where
  run := b.seek first
  length_le h := length_seek_le h

section Fold

variable {σ : Type}

/-- Read the items behind the first one, each by `step` on what was read so far. -/
def foldRest (b : Bracket) (step : σ → Reader σ) (state : σ) (s : List Char) :
    Except Fault (σ × List Char) :=
  match _hs : b.seek false s with
  | .error e => .error e
  | .ok (false, r) => .ok (state, r)
  | .ok (true, r) =>
    match _hr : (step state).run r with
    | .error e => .error e
    | .ok (state', t) => foldRest b step state' t
termination_by s.length
decreasing_by exact Nat.lt_of_le_of_lt ((step state).length_le _hr) (length_seek_lt _hs)

/-- Reading the further items never lengthens the text. -/
theorem length_foldRest_le {b : Bracket} {step : σ → Reader σ} {state state' : σ}
    {s r : List Char} (h : foldRest b step state s = .ok (state', r)) :
    r.length ≤ s.length := by
  fun_induction foldRest b step state s with
  | case1 => simp at h
  | case2 state s r hs =>
    simp at h
    exact h.2 ▸ length_seek_le hs
  | case3 => simp at h
  | case4 state s t hs state'' u hu ih =>
    exact Nat.le_trans (ih h) (Nat.le_trans ((step state).length_le hu) (length_seek_le hs))

/-- Read the items behind the first one. -/
def rest (b : Bracket) (step : σ → Reader σ) (state : σ) : Reader σ where
  run := foldRest b step state
  length_le h := length_foldRest_le h

/-- Read the items up to the closing bracket, each by `step` on what was read so far. -/
def fold (b : Bracket) (step : σ → Reader σ) (state : σ) : Reader σ := do
  if ← b.more true then
    let state ← step state
    b.rest step state
  else return state

end Fold

/-! ### Brackets -/

/-- Look for the closing bracket: the fault, if it is not there, and the rest behind it. -/
def close (b : Bracket) (s : List Char) : Option Fault × List Char :=
  let s := Reader.dropSpace s
  match s with
  | [] => (some (.next b.ended []), [])
  | c :: r =>
    if c = b.closing then (none, r)
    else if c = ',' then
      match b with
      | .list =>
        let r := Reader.dropSpace r
        let cause := if r.head? = some b.closing then .trailingComma else .trailingCharacters
        (some (.next cause r), r)
      | .object => (some (.next .trailingComma s), s)
    else (some (.next .trailingCharacters s), s)

/-- Taking the closing bracket never lengthens the text. -/
theorem length_close_le {b : Bracket} {s : List Char} (h : (b.close s).1 = none) :
    (b.close s).2.length ≤ s.length := by
  have hs := Reader.length_dropSpace_le s
  revert h
  simp only [close]
  split
  · simp
  · rename_i c r hc
    rw [hc] at hs
    split
    · intro
      simp at hs
      simp
      omega
    · split
      · cases b <;> simp
      · simp

/-- Read with `body` and then the closing bracket. -/
def closed {α : Type} (b : Bracket) (body : Reader α) : Reader α where
  run s :=
    match body.run s with
    | .ok (a, r) =>
      match b.close r with
      | (none, t) => .ok (a, t)
      | (some e, _) => .error e
    | .error (.loose cause r) => .error (.here cause (b.close r).2)
    | .error e => .error e
  length_le {s a r} h := by
    cases hb : body.run s with
    | error e =>
      rw [hb] at h
      cases e <;> simp at h
    | ok x =>
      obtain ⟨a', t⟩ := x
      simp only [hb] at h
      cases hc : b.close t with
      | mk fault u =>
        rw [hc] at h
        cases fault with
        | some e => simp at h
        | none =>
          simp at h
          have hl := length_close_le (b := b) (s := t) (by rw [hc])
          rw [hc] at hl
          have := body.length_le hb
          rw [← h.2]
          exact Nat.le_trans hl this

/-- Read brackets, the opening one not being taken yet, with `body` between them.  `depth`
counts the brackets that may still be opened. -/
def enclose {α : Type} (b : Bracket) (depth : Nat) (body : Nat → Reader α) : Reader α :=
  match depth with
  | 0 => Reader.stopNext .tooDeep
  | depth + 1 => do
    .advance
    b.closed (body depth)

end Bracket

/-- How many brackets may be open at once. -/
def depthLimit : Nat := 127

namespace Reader

open Scanner (advance takes)

/-- Take the colon behind a key. -/
def colon : Reader Unit := do
  match ← token with
  | none => stopNext .endInObject
  | some ':' => advance
  | some _ => stopNext .expectedColon

/-- Read the key of a member. -/
def key : Reader String := do
  if ← takes '"' then stringBody else stopNext .keyNotString

end Reader

end DialogChart.Json
