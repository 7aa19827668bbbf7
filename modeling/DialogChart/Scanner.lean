/-!
# Scanners

A scanner takes a value from the front of a text and leaves the rest, or stops with an error.
It never leaves more than it was given; it carries the proof, so that a loop over scanners
ends without a bound on the number of rounds.
-/

namespace DialogChart

/-- A scanner of `α` that may stop with an `ε`: its action on a text, and that it never
lengthens the text. -/
structure Scanner (ε α : Type) where
  run : List Char → Except ε (α × List Char)
  length_le : ∀ {s : List Char} {a : α} {r : List Char}, run s = .ok (a, r) → r.length ≤ s.length

namespace Scanner

variable {ε α β σ : Type}

/-- Take nothing. -/
def done (a : α) : Scanner ε α where
  run s := .ok (a, s)
  length_le h := by
    cases h
    exact Nat.le_refl _

/-- Scan with one scanner, then with the one that its value selects. -/
def andThen (p : Scanner ε α) (f : α → Scanner ε β) : Scanner ε β where
  run s :=
    match p.run s with
    | .ok (a, r) => (f a).run r
    | .error e => .error e
  length_le {s b r} h := by
    cases hp : p.run s with
    | error e => simp [hp] at h
    | ok x =>
      obtain ⟨a, t⟩ := x
      simp only [hp] at h
      exact Nat.le_trans ((f a).length_le h) (p.length_le hp)

instance : Monad (Scanner ε) where
  pure := done
  bind := andThen

/-- Stop with an error that depends on the rest of the text. -/
def stop (error : List Char → ε) : Scanner ε α where
  run s := .error (error s)
  length_le h := by simp at h

/-- The next character, which is not taken. -/
def look : Scanner ε (Option Char) where
  run s := .ok (s.head?, s)
  length_le h := by
    cases h
    exact Nat.le_refl _

/-- Take the next character, if there is one. -/
def advance : Scanner ε Unit where
  run s := .ok ((), s.tail)
  length_le h := by
    cases h
    simp

/-- Take the characters in front that satisfy `p`. -/
def takeWhile (p : Char → Bool) : Scanner ε (List Char) where
  run s := .ok (s.takeWhile p, s.dropWhile p)
  length_le h := by
    cases h
    exact (List.dropWhile_sublist _).length_le

/-- Scan, and return also the characters that were taken. -/
def taking (p : Scanner ε α) : Scanner ε (α × List Char) where
  run s :=
    match p.run s with
    | .ok (a, r) => .ok ((a, s.take (s.length - r.length)), r)
    | .error e => .error e
  length_le {s a r} h := by
    cases hp : p.run s with
    | error e => simp [hp] at h
    | ok x =>
      obtain ⟨b, t⟩ := x
      simp only [hp, Except.ok.injEq, Prod.mk.injEq] at h
      exact h.2 ▸ p.length_le hp

/-- Take the next character if it is the given one. -/
def takes (c : Char) : Scanner ε Bool := do
  if (← look) = some c then
    advance
    return true
  else return false

/-- Repeat a step on a state for as long as it asks for another round and takes something. -/
def repeatFrom (step : σ → Scanner ε (σ × Bool)) (state : σ) (s : List Char) :
    Except ε (σ × List Char) :=
  match (step state).run s with
  | .error e => .error e
  | .ok ((state', more), r) =>
    if _h : more = true ∧ r.length < s.length then repeatFrom step state' r else .ok (state', r)
termination_by s.length
decreasing_by exact _h.2

/-- Repeating a step never lengthens the text. -/
theorem length_repeatFrom_le {step : σ → Scanner ε (σ × Bool)} {state state' : σ}
    {s r : List Char} (h : repeatFrom step state s = .ok (state', r)) : r.length ≤ s.length := by
  fun_induction repeatFrom step state s with
  | case1 => simp at h
  | case2 state s state'' more t hs hm ih => exact Nat.le_trans (ih h) (Nat.le_of_lt hm.2)
  | case3 state s state'' more t hs hm =>
    simp only [Except.ok.injEq, Prod.mk.injEq] at h
    exact h.2 ▸ (step state).length_le hs

/-- Repeat a step on a state for as long as it asks for another round and takes something. -/
def iterate (step : σ → Scanner ε (σ × Bool)) (state : σ) : Scanner ε σ where
  run := repeatFrom step state
  length_le h := length_repeatFrom_le h

end Scanner

end DialogChart
