import DialogChart.Json.Literal
import DialogChart.Proofs.Json.Faithful
import DialogChart.Proofs.Number.Bits

/-!
# Numbers in documents read back

A finite double is read back from the text that is written for it if the reader of literals gives
this double for the text (`Codec.double_faithful`).  The text has a point or an exponent, so it is
never taken for an integer, and it is taken as a whole.  There are two layouts to go through: digits
around a point, and a digit, a point and an exponent.

The reader of the nearest doubles is one that gives every finite double back (`nearest_readsBack`):
the number that it finds in the text is that of the digits that were chosen
(`Number.Decimal.StandsFor`).
-/

namespace DialogChart.Json

open Number (Decimal Format)
open Scanner (run_bind_of_ok run_takes_self run_takes_of_ne)

/-! ### Digits -/

/-- The first character of a text is not a digit. -/
def NoDigit (rest : List Char) : Prop :=
  ∀ c, rest.head? = some c → isDigit c = false

/-- No digit follows a value. -/
lemma Ends.noDigit {rest : List Char} (h : Ends rest) : NoDigit rest := by
  intro c hc
  rcases h c hc with rfl | rfl | rfl <;> decide

/-- A character that follows a value is none of those that go on with a number. -/
lemma Ends.head?_ne {rest : List Char} (h : Ends rest) {c : Char} (hc : c ≠ ',')
    (hc' : c ≠ ']') (hc'' : c ≠ '\x7d') : rest.head? ≠ some c := by
  intro hhead
  rcases h c hhead with rfl | rfl | rfl
  · exact hc rfl
  · exact hc' rfl
  · exact hc'' rfl

/-- Digits end at the first character that is none. -/
lemma span_digits {ds rest : List Char} (hds : ∀ c ∈ ds, isDigit c = true)
    (hrest : NoDigit rest) :
    (ds ++ rest).takeWhile isDigit = ds ∧ (ds ++ rest).dropWhile isDigit = rest := by
  have hstop : rest.takeWhile isDigit = [] ∧ rest.dropWhile isDigit = rest := by
    cases rest with
    | nil => exact ⟨rfl, rfl⟩
    | cons c rest =>
      have hc := hrest c rfl
      exact ⟨by rw [List.takeWhile_cons, hc]; rfl, by rw [List.dropWhile_cons, hc]; rfl⟩
  rw [List.takeWhile_append_of_pos hds, List.dropWhile_append_of_pos hds, hstop.1, hstop.2,
    List.append_nil]
  exact ⟨rfl, rfl⟩

/-- Digits are taken up to the first character that is none. -/
lemma run_digits {ds rest : List Char} (hds : ∀ c ∈ ds, isDigit c = true) (hrest : NoDigit rest) :
    Reader.digits.run (ds ++ rest) = .ok (ds, rest) := by
  change Except.ok ((ds ++ rest).takeWhile isDigit, (ds ++ rest).dropWhile isDigit) = _
  rw [(span_digits hds hrest).1, (span_digits hds hrest).2]

/-- The characters that are written for a natural number are digits. -/
lemma isDigit_of_mem_toDigits {n : ℕ} {c : Char} (h : c ∈ Nat.toDigits 10 n) :
    isDigit c = true := by
  have hc := Nat.isDigit_of_mem_toDigits (by decide) (by decide) h
  rw [Char.isDigit, Bool.and_eq_true, decide_eq_true_eq, decide_eq_true_eq] at hc
  unfold isDigit
  rw [Bool.and_eq_true, decide_eq_true_eq, decide_eq_true_eq]
  exact hc

/-- Zeros are digits. -/
lemma isDigit_of_mem_zeros (k : ℕ) : ∀ d ∈ List.replicate k '0', isDigit d = true := by
  intro d hd
  rw [List.eq_of_mem_replicate hd]
  decide

/-- The first digit of a positive number is not zero. -/
lemma head?_toDigits {n : ℕ} (hn : 0 < n) : (Nat.toDigits 10 n).head? ≠ some '0' := by
  induction n using Nat.strong_induction_on with
  | _ n ih =>
    rw [Nat.toDigits_eq_if (by decide)]
    split
    · rename_i hlt
      interval_cases n <;> decide
    · rw [List.head?_append_of_ne_nil _ Nat.toDigits_ne_nil]
      exact ih (n / 10) (by omega) (by omega)

/-- The value of digits that are written for a number. -/
lemma digitsValue_eq (ds : List Char) : digitsValue ds = Nat.ofDigitChars 10 ds 0 := rfl

/-- The value of a number with zeros in front. -/
lemma digitsValue_padded (k c : ℕ) :
    digitsValue (List.replicate k '0' ++ Nat.toDigits 10 c) = c := by
  rw [digitsValue_eq, Nat.ofDigitChars_append, Nat.ofDigitChars_replicate_zero, Nat.mul_zero,
    Nat.ofDigitChars_ten_toDigits]

/-- The value of a number with zeros behind it. -/
lemma digitsValue_scaled (k c : ℕ) :
    digitsValue (Nat.toDigits 10 c ++ List.replicate k '0') = 10 ^ k * c := by
  rw [digitsValue_eq, Nat.ofDigitChars_append, Nat.ofDigitChars_replicate_zero,
    Nat.ofDigitChars_ten_toDigits]

/-! ### The parts of a number -/

/-- Digits that may stand before the point: a zero stands alone. -/
def Whole (w : List Char) : Prop :=
  w = ['0'] ∨ (w ≠ [] ∧ w.head? ≠ some '0' ∧ ∀ c ∈ w, isDigit c = true)

/-- The digits before the point start with a digit. -/
lemma Whole.exists_cons {w : List Char} (h : Whole w) :
    ∃ c t, w = c :: t ∧ isDigit c = true := by
  rcases h with rfl | ⟨hne, -, hdigits⟩
  · exact ⟨'0', [], rfl, by decide⟩
  · obtain ⟨c, t, rfl⟩ := List.exists_cons_of_ne_nil hne
    exact ⟨c, t, rfl, hdigits c List.mem_cons_self⟩

/-- All of the digits before the point are digits. -/
lemma Whole.digits {w : List Char} (h : Whole w) : ∀ c ∈ w, isDigit c = true := by
  rcases h with rfl | ⟨-, -, hdigits⟩
  · exact isDigit_of_mem_zeros 1
  · exact hdigits

/-- The digits of a positive number with zeros behind them may stand before the point. -/
lemma whole_scaled {c : ℕ} (hc : 0 < c) (k : ℕ) :
    Whole (Nat.toDigits 10 c ++ List.replicate k '0') := by
  refine .inr ⟨List.append_ne_nil_of_left_ne_nil Nat.toDigits_ne_nil _, ?_, fun d hd => ?_⟩
  · rw [List.head?_append_of_ne_nil _ Nat.toDigits_ne_nil]
    exact head?_toDigits hc
  · exact (List.mem_append.mp hd).elim isDigit_of_mem_toDigits (isDigit_of_mem_zeros k d)

/-- The digits of a number with zeros in front, so that one of them stands before `places`
others. -/
def padded (c places : ℕ) : List Char :=
  List.replicate (places + 1 - (Nat.toDigits 10 c).length) '0' ++ Nat.toDigits 10 c

/-- There is at least one digit before the places. -/
lemma length_padded (c places : ℕ) :
    (padded c places).length = max (places + 1) (Nat.toDigits 10 c).length := by
  rw [padded, List.length_append, List.length_replicate]
  omega

/-- Padding adds digits only. -/
lemma isDigit_of_mem_padded {c places : ℕ} {d : Char} (hd : d ∈ padded c places) :
    isDigit d = true :=
  (List.mem_append.mp hd).elim (isDigit_of_mem_zeros _ d) isDigit_of_mem_toDigits

/-- The padded digits in front of the places may stand before the point. -/
lemma whole_padded {c : ℕ} (hc : 0 < c) (places : ℕ) :
    Whole ((padded c places).take ((padded c places).length - places)) := by
  have hlength := length_padded c places
  -- Either there are digits before the point, or a zero is put there.
  rcases Nat.lt_or_ge places (Nat.toDigits 10 c).length with hlt | hge
  · have heq : padded c places = Nat.toDigits 10 c := by
      rw [padded, Nat.sub_eq_zero_of_le hlt, List.replicate_zero, List.nil_append]
    refine .inr ⟨?_, ?_, fun d hd => isDigit_of_mem_padded (List.mem_of_mem_take hd)⟩
    · rw [ne_eq, List.take_eq_nil_iff, not_or]
      refine ⟨by omega, ?_⟩
      rw [heq]
      exact Nat.toDigits_ne_nil
    · rw [List.head?_take, if_neg (by omega), heq]
      exact head?_toDigits hc
  · have hone : (padded c places).length - places = 1 := by omega
    rw [hone, padded, Nat.succ_sub hge, List.replicate_succ]
    exact .inl rfl

/-- The digits before the point are taken. -/
lemma run_wholePart {w rest : List Char} (hw : Whole w) (hrest : NoDigit rest) :
    Reader.wholePart.run (w ++ rest) = .ok (w, rest) := by
  unfold Reader.wholePart
  rw [Scanner.run_look_bind]
  rcases hw with rfl | ⟨hne, hzero, hdigits⟩
  · rw [List.singleton_append, List.head?_cons]
    simp only [Scanner.run_advance_bind, Scanner.run_look_bind]
    cases rest with
    | nil => rfl
    | cons c rest =>
      simp only [List.head?_cons, hrest c rfl]
      rfl
  · obtain ⟨c, t, rfl⟩ := List.exists_cons_of_ne_nil hne
    have hc : c ≠ '0' := fun h => hzero (by rw [h]; rfl)
    have hdigit := hdigits c List.mem_cons_self
    rw [List.cons_append, List.head?_cons]
    split
    · rename_i heq
      cases heq
    · rename_i heq
      exact absurd (Option.some.inj heq) hc
    · rename_i d _ heq
      cases heq
      rw [if_pos hdigit]
      exact run_digits hdigits hrest

/-- A point and the digits behind it are taken. -/
lemma run_fractionPart {ds rest : List Char} (hne : ds ≠ [])
    (hds : ∀ c ∈ ds, isDigit c = true) (hrest : NoDigit rest) :
    Reader.fractionPart.run ('.' :: (ds ++ rest)) = .ok (some ds, rest) := by
  unfold Reader.fractionPart
  rw [run_bind_of_ok (run_takes_self '.' _), if_pos rfl, run_bind_of_ok (run_digits hds hrest)]
  cases ds with
  | nil => exact absurd rfl hne
  | cons c ds => rfl

/-- Without a point there are no digits behind it. -/
lemma run_fractionPart_none {rest : List Char} (h : rest.head? ≠ some '.') :
    Reader.fractionPart.run rest = .ok (none, rest) := by
  unfold Reader.fractionPart
  rw [run_bind_of_ok (run_takes_of_ne h)]
  rfl

/-- The sign of a number. -/
def signChars (negative : Bool) : List Char :=
  if negative then ['-'] else []

/-- The sign of a number is taken. -/
lemma run_sign {w rest : List Char} (hw : Whole w) (negative : Bool) :
    (Scanner.takes '-' : Reader Bool).run (signChars negative ++ (w ++ rest)) =
      .ok (negative, w ++ rest) := by
  cases negative with
  | true => exact run_takes_self '-' _
  | false =>
    obtain ⟨c, t, rfl, hc⟩ := hw.exists_cons
    refine run_takes_of_ne ?_
    rintro ⟨⟩
    revert hc
    decide

/-- A finite double is in range. -/
lemma run_inRange {x : Float} (hx : Number.FiniteDouble x) (rest : List Char) :
    (Reader.inRange x).run rest = .ok (.double x, rest) := by
  obtain ⟨negative, m, q, hx⟩ := hx
  unfold Reader.inRange
  simp only [hx]
  rfl

/-! ### The two layouts -/

/-- A point is no digit. -/
lemma noDigit_point (s : List Char) : NoDigit ('.' :: s) := by
  rintro c ⟨⟩
  decide

/-- The letter of an exponent is no digit. -/
lemma noDigit_letter (s : List Char) : NoDigit ('e' :: s) := by
  rintro c ⟨⟩
  decide

/-- A number with a point is taken. -/
lemma run_numeralKind_point {w ds rest : List Char} (negative : Bool) (hw : Whole w)
    (hne : ds ≠ []) (hds : ∀ c ∈ ds, isDigit c = true) (hrest : Ends rest) :
    Reader.numeralKind.run (signChars negative ++ (w ++ '.' :: (ds ++ rest))) =
      .ok (.literal, rest) := by
  unfold Reader.numeralKind
  rw [run_bind_of_ok (run_sign hw negative), run_bind_of_ok (run_wholePart hw (noDigit_point _)),
    run_bind_of_ok (run_fractionPart hne hds hrest.noDigit)]
  simp only [Scanner.run_look_bind]
  split
  · rename_i heq
    exact absurd heq (hrest.head?_ne (by decide) (by decide) (by decide))
  · rename_i heq
    exact absurd heq (hrest.head?_ne (by decide) (by decide) (by decide))
  · rfl

/-- The exponent is read to its end if it is not too large. -/
lemma scanExponent_append {ds rest : List Char} (hds : ∀ c ∈ ds, isDigit c = true)
    (hrest : NoDigit rest) (n : ℕ) (hlimit : Nat.ofDigitChars 10 ds n ≤ exponentLimit) :
    scanExponent n (ds ++ rest) = (some (Nat.ofDigitChars 10 ds n), rest) := by
  induction ds generalizing n with
  | nil =>
    cases rest with
    | nil => rfl
    | cons c rest =>
      rw [List.nil_append, scanExponent, hrest c rfl]
      rfl
  | cons c ds ih =>
    rw [Nat.ofDigitChars_cons] at hlimit ⊢
    rw [List.cons_append, scanExponent, if_pos (hds c List.mem_cons_self)]
    have hnext : 10 * n + digitValue c ≤ exponentLimit := by
      refine le_trans ?_ hlimit
      rw [Nat.ofDigitChars_eq_ofDigitChars_zero]
      refine le_trans ?_ (Nat.le_add_right _ _)
      exact Nat.le_mul_of_pos_left _ (by positivity)
    dsimp only
    rw [if_neg (Nat.not_lt.mpr hnext)]
    exact ih (fun d hd => hds d (List.mem_cons_of_mem c hd)) _ hlimit

/-- The sign of an exponent. -/
def exponentMark (E : ℤ) : Char :=
  if E < 0 then '-' else '+'

/-- An exponent with its sign is taken. -/
lemma run_exponentPart {rest : List Char} (negative isZero : Bool) (E : ℤ)
    (hE : E.natAbs ≤ exponentLimit) (hrest : Ends rest) :
    (Reader.exponentPart negative isZero).run
      (exponentMark E :: (Nat.toDigits 10 E.natAbs ++ rest)) = .ok (.literal, rest) := by
  have hvalue : Nat.ofDigitChars 10 (Nat.toDigits 10 E.natAbs) 0 = E.natAbs :=
    Nat.ofDigitChars_ten_toDigits
  have hdigits : ∀ c ∈ Nat.toDigits 10 E.natAbs, isDigit c = true :=
    fun c hc => isDigit_of_mem_toDigits hc
  have hscan : Reader.exponentDigits.run (Nat.toDigits 10 E.natAbs ++ rest) =
      .ok (some E.natAbs, rest) := by
    change Except.ok (scanExponent 0 (Nat.toDigits 10 E.natAbs ++ rest)) = _
    rw [scanExponent_append hdigits hrest.noDigit 0 (by rw [hvalue]; exact hE), hvalue]
  have hsign : Reader.exponentSign.run (exponentMark E :: (Nat.toDigits 10 E.natAbs ++ rest)) =
      .ok (decide (E < 0), Nat.toDigits 10 E.natAbs ++ rest) := by
    unfold Reader.exponentSign exponentMark
    by_cases hneg : E < 0
    · rw [if_pos hneg, run_bind_of_ok (run_takes_self '-' _), decide_eq_true hneg]
      rfl
    · have hplus : ('+' :: (Nat.toDigits 10 E.natAbs ++ rest)).head? ≠ some '-' := by
        rintro ⟨⟩
      rw [if_neg hneg, run_bind_of_ok (run_takes_of_ne hplus), if_neg Bool.false_ne_true,
        run_bind_of_ok (run_takes_self '+' _), decide_eq_false hneg]
      rfl
  unfold Reader.exponentPart
  rw [run_bind_of_ok hsign, Scanner.run_look_bind]
  obtain ⟨c, t, htext⟩ := List.exists_cons_of_ne_nil
    (Nat.toDigits_ne_nil (n := E.natAbs) (b := 10))
  rw [htext, List.cons_append, List.head?_cons]
  simp only [hdigits c (by rw [htext]; exact List.mem_cons_self), if_true]
  rw [← List.cons_append, ← htext, run_bind_of_ok hscan]
  rfl

/-- Digits behind a point, if there are any. -/
def pointChars (ds : List Char) : List Char :=
  if ds = [] then [] else '.' :: ds

/-- No digit stands between the first digit and the exponent but behind a point. -/
lemma noDigit_pointChars (ds s : List Char) : NoDigit (pointChars ds ++ 'e' :: s) := by
  unfold pointChars
  split
  · exact noDigit_letter s
  · exact noDigit_point _

/-- A number with an exponent is taken. -/
lemma run_numeralKind_scientific {c : Char} {ds rest : List Char} (negative : Bool)
    (hw : Whole [c]) (hds : ∀ c ∈ ds, isDigit c = true) (E : ℤ)
    (hE : E.natAbs ≤ exponentLimit) (hrest : Ends rest) :
    Reader.numeralKind.run (signChars negative ++ ([c] ++ (pointChars ds ++
        'e' :: exponentMark E :: (Nat.toDigits 10 E.natAbs ++ rest)))) = .ok (.literal, rest) := by
  set tail := exponentMark E :: (Nat.toDigits 10 E.natAbs ++ rest) with htail
  have hfraction : ∃ fraction, Reader.fractionPart.run (pointChars ds ++ 'e' :: tail) =
      .ok (fraction, 'e' :: tail) := by
    unfold pointChars
    split
    · refine ⟨none, run_fractionPart_none ?_⟩
      rintro ⟨⟩
    · rename_i hne
      exact ⟨some ds, run_fractionPart hne hds (noDigit_letter _)⟩
  obtain ⟨fraction, hfraction⟩ := hfraction
  unfold Reader.numeralKind
  rw [run_bind_of_ok (run_sign hw negative),
    run_bind_of_ok (run_wholePart hw (noDigit_pointChars ds tail)), run_bind_of_ok hfraction]
  simp only [Scanner.run_look_bind, List.head?_cons, Scanner.run_advance_bind]
  rw [htail, run_exponentPart _ _ E hE hrest]

/-! ### The parts of a literal -/

namespace Literal

/-- The sign of a literal is its first character. -/
lemma ofChars_signed {w : List Char} (hw : Whole w) (negative : Bool) (tail : List Char) :
    ofChars (signChars negative ++ (w ++ tail)) = ofUnsigned negative (w ++ tail) := by
  cases negative with
  | true => rfl
  | false =>
    obtain ⟨c, t, rfl, hc⟩ := hw.exists_cons
    have hne : c ≠ '-' := by
      rintro rfl
      revert hc
      decide
    change ofChars (c :: (t ++ tail)) = _
    unfold ofChars
    split
    · rename_i heq
      exact absurd (List.cons.inj heq).1 hne
    · rfl

/-- The parts of a literal with a point. -/
lemma ofChars_point {w ds : List Char} (negative : Bool) (hw : Whole w)
    (hds : ∀ c ∈ ds, isDigit c = true) :
    ofChars (signChars negative ++ (w ++ '.' :: ds)) = ⟨negative, w, ds, 0⟩ := by
  obtain ⟨hwhole, hrest⟩ := span_digits hw.digits (noDigit_point ds)
  have hnothing : NoDigit [] := by
    rintro c ⟨⟩
  obtain ⟨hplaces, hend⟩ := span_digits hds hnothing
  rw [List.append_nil] at hplaces hend
  rw [ofChars_signed hw, ofUnsigned]
  simp only [hwhole, hrest, hplaces, hend]
  rfl

/-- The exponent is that of its digits and its sign. -/
lemma exponentOf_mark (E : ℤ) : exponentOf (exponentMark E :: Nat.toDigits 10 E.natAbs) = E := by
  have hvalue : digitsValue (Nat.toDigits 10 E.natAbs) = E.natAbs := digitsValue_padded 0 E.natAbs
  unfold exponentMark
  split
  · rw [exponentOf, hvalue]
    omega
  · rw [exponentOf, hvalue]
    omega

/-- The parts of a literal with an exponent. -/
lemma ofChars_scientific {c : Char} {ds : List Char} (negative : Bool) (hw : Whole [c])
    (hds : ∀ c ∈ ds, isDigit c = true) (E : ℤ) :
    ofChars (signChars negative ++ ([c] ++ (pointChars ds ++
      'e' :: exponentMark E :: Nat.toDigits 10 E.natAbs))) = ⟨negative, [c], ds, E⟩ := by
  set tail := exponentMark E :: Nat.toDigits 10 E.natAbs with htail
  obtain ⟨hwhole, hrest⟩ := span_digits hw.digits (noDigit_pointChars ds tail)
  rw [ofChars_signed hw, ofUnsigned, hwhole, hrest]
  rcases eq_or_ne ds [] with rfl | hne
  · exact congrArg (Literal.mk negative [c] []) (exponentOf_mark E)
  · obtain ⟨hplaces, hend⟩ := span_digits hds (noDigit_letter tail)
    have hpoint : pointChars ds = '.' :: ds := if_neg hne
    simp only [hpoint, List.cons_append, hplaces, hend]
    exact congrArg (Literal.mk negative [c] ds) (exponentOf_mark E)

end Literal

/-! ### Laying digits out -/

/-- A text is a literal of the given double: its first character tells that it is a number, it is
taken as a whole, and the double is the nearest one to the number that it stands for. -/
structure LiteralOf (text : List Char) (x : Float) : Prop where
  starts : ∃ c s, text = c :: s ∧ (c = '-' || isDigit c) = true
  taken : Reader.numeralKind.Reads text .literal
  nearest : (Literal.ofChars text).decimal.toDouble = x

/-- A number starts with a sign or a digit. -/
lemma starts_signed {w : List Char} (hw : Whole w) (negative : Bool) (tail : List Char) :
    ∃ c s, signChars negative ++ (w ++ tail) = c :: s ∧ (c = '-' || isDigit c) = true := by
  obtain ⟨c, t, rfl, hc⟩ := hw.exists_cons
  cases negative with
  | true => exact ⟨'-', _, rfl, rfl⟩
  | false => exact ⟨c, _, rfl, by rw [hc, Bool.or_true]⟩

section LayOut

variable {x : Float} {negative : Bool} {m : ℕ} {q : ℤ}
  (hx : Number.ofDouble x = .finite negative m q)
include hx

/-- Digits around a point are a literal of the double that they stand for. -/
lemma literalOf_point {w ds : List Char} (hw : Whole w) (hne : ds ≠ [])
    (hds : ∀ c ∈ ds, isDigit c = true)
    (hd : Decimal.StandsFor ⟨negative, digitsValue (w ++ ds), -(ds.length : ℤ)⟩ negative m q) :
    LiteralOf (signChars negative ++ (w ++ '.' :: ds)) x := by
  refine ⟨starts_signed hw negative _, fun rest hrest => ?_, ?_⟩
  · rw [List.append_assoc, List.append_assoc, List.cons_append,
      run_numeralKind_point negative hw hne hds hrest]
  · rw [Literal.ofChars_point negative hw hds, Literal.decimal, add_zero, Decimal.toDouble_eq hx hd]

/-- The digits of a positive number that rounds to a double, in the positional layout. -/
lemma literalOf_positional {c : ℕ} {e : ℤ} (hc : 0 < c) (hm : 0 < m)
    (h : (Format.double.interval m q).Contains q (c * 10 ^ e)) :
    LiteralOf (signChars negative ++ Number.positional true (Nat.toDigits 10 c) e) x := by
  cases e with
  | ofNat k =>
    refine literalOf_point hx (whole_scaled hc k) (List.cons_ne_nil '0' [])
      (isDigit_of_mem_zeros 1) ⟨rfl, fun hzero => by omega, fun _ => ?_⟩
    have hone : List.replicate k '0' ++ ['0'] = List.replicate (k + 1) '0' := by
      rw [List.replicate_succ']
    rw [List.append_assoc, hone, Decimal.magnitude]
    dsimp only
    rw [digitsValue_scaled]
    convert h using 1
    push_cast
    rw [pow_succ, Int.ofNat_eq_natCast, zpow_natCast, List.length_singleton, Nat.cast_one,
      zpow_neg_one]
    field_simp
  | negSucc k =>
    have hlaid : Number.positional true (Nat.toDigits 10 c) (.negSucc k) =
        (padded c (k + 1)).take ((padded c (k + 1)).length - (k + 1)) ++
          '.' :: (padded c (k + 1)).drop ((padded c (k + 1)).length - (k + 1)) := rfl
    have hlength := length_padded c (k + 1)
    have hdrop : ((padded c (k + 1)).drop ((padded c (k + 1)).length - (k + 1))).length =
        k + 1 := by
      rw [List.length_drop]
      omega
    have hne : (padded c (k + 1)).drop ((padded c (k + 1)).length - (k + 1)) ≠ [] := by
      intro hnil
      rw [hnil] at hdrop
      cases hdrop
    rw [hlaid]
    refine literalOf_point hx (whole_padded hc (k + 1)) hne
      (fun d hd => isDigit_of_mem_padded (List.mem_of_mem_drop hd))
      ⟨rfl, fun hzero => by omega, fun _ => ?_⟩
    rw [List.take_append_drop, hdrop, Decimal.magnitude]
    dsimp only
    rw [padded, digitsValue_padded]
    exact h

/-- The exponent of the first digit of a number that rounds to a double is small. -/
lemma natAbs_exponent_le {c : ℕ} {e : ℤ} (hc : 0 < c) (hm : 0 < m)
    (h : (Format.double.interval m q).Contains q (c * 10 ^ e)) :
    (e + ((Nat.toDigits 10 c).length - 1 : ℕ)).natAbs ≤ exponentLimit := by
  obtain ⟨hcanonical, -⟩ := Number.eq_ofBits_of_finite hx
  obtain ⟨hsmall, hlarge⟩ := Format.bounds_of_contains hcanonical hm h
  have hlength : 0 < (Nat.toDigits 10 c).length := Nat.length_toDigits_pos
  set n := (Nat.toDigits 10 c).length with hn
  have hlt : (c : ℚ) < 10 ^ (n : ℤ) := by
    rw [zpow_natCast]
    exact_mod_cast (Nat.length_toDigits_le_iff (by decide) hlength).mp hn.ge
  have hge : (10 : ℚ) ^ ((n : ℤ) - 1) ≤ c := by
    rw [show (n : ℤ) - 1 = ((n - 1 : ℕ) : ℤ) by omega, zpow_natCast]
    rcases Nat.eq_zero_or_pos (n - 1) with hzero | hpos
    · rw [hzero, pow_zero]
      exact_mod_cast hc
    · have := mt (Nat.length_toDigits_le_iff (n := c) (b := 10) (by decide) hpos).mpr (by omega)
      exact_mod_cast not_lt.mp this
  have hten : (0 : ℚ) < 10 ^ e := by positivity
  have hupper : e + ((n : ℤ) - 1) < 350 := by
    refine (zpow_lt_zpow_iff_right₀ (a := (10 : ℚ)) (by norm_num)).mp ?_
    calc (10 : ℚ) ^ (e + ((n : ℤ) - 1)) = 10 ^ ((n : ℤ) - 1) * 10 ^ e := by
          rw [zpow_add₀ (by norm_num), mul_comm]
      _ ≤ c * 10 ^ e := mul_le_mul_of_nonneg_right hge hten.le
      _ < 10 ^ 350 := hlarge
      _ = 10 ^ (350 : ℤ) := by rw [zpow_ofNat]
  have hlower : 0 < (n : ℤ) + e + 360 := by
    refine (zpow_lt_zpow_iff_right₀ (a := (10 : ℚ)) (by norm_num)).mp ?_
    calc (10 : ℚ) ^ (0 : ℤ) = 1 := zpow_zero _
      _ < c * 10 ^ e * 10 ^ 360 := hsmall
      _ < 10 ^ (n : ℤ) * 10 ^ e * 10 ^ (360 : ℤ) := by
        rw [zpow_ofNat]
        gcongr
      _ = 10 ^ ((n : ℤ) + e + 360) := by
        rw [← zpow_add₀ (by norm_num), ← zpow_add₀ (by norm_num)]
  have hlimit : exponentLimit = 2147483647 := by decide
  rw [hlimit]
  omega

/-- The digits of a positive number that rounds to a double, with an exponent. -/
lemma literalOf_scientific {c : ℕ} {e : ℤ} (hc : 0 < c) (hm : 0 < m)
    (h : (Format.double.interval m q).Contains q (c * 10 ^ e)) :
    LiteralOf (signChars negative ++ Number.scientific (Nat.toDigits 10 c)
      (e + ((Nat.toDigits 10 c).length - 1 : ℕ))) x := by
  have hE := natAbs_exponent_le hx hc hm h
  have hdigits : ∀ d ∈ Nat.toDigits 10 c, isDigit d = true := fun d hd => isDigit_of_mem_toDigits hd
  have hhead := head?_toDigits hc
  have hvalue : digitsValue (Nat.toDigits 10 c) = c := digitsValue_padded 0 c
  obtain ⟨d, ds, htext⟩ := List.exists_cons_of_ne_nil (Nat.toDigits_ne_nil (n := c) (b := 10))
  rw [htext] at hE hdigits hhead hvalue ⊢
  have hw : Whole [d] := .inr ⟨List.cons_ne_nil d [], hhead, fun d' hd' => by
    rw [List.mem_singleton.mp hd']
    exact hdigits d List.mem_cons_self⟩
  have hds : ∀ d' ∈ ds, isDigit d' = true := fun d' hd' => hdigits d' (List.mem_cons_of_mem d hd')
  have hlayout : ∀ E : ℤ, Number.scientific (d :: ds) E =
      [d] ++ (pointChars ds ++ 'e' :: exponentMark E :: Nat.toDigits 10 E.natAbs) := by
    intro E
    simp [Number.scientific, pointChars, exponentMark]
  rw [hlayout]
  refine ⟨starts_signed hw negative _, fun rest hrest => ?_, ?_⟩
  · simpa only [List.append_assoc, List.cons_append] using
      run_numeralKind_scientific negative hw hds _ hE hrest
  · rw [Literal.ofChars_scientific negative hw hds, Literal.decimal, List.singleton_append]
    refine Decimal.toDouble_eq hx ⟨rfl, fun hzero => by omega, fun _ => ?_⟩
    rw [Decimal.magnitude]
    dsimp only
    rw [hvalue, List.length_cons, Nat.add_sub_cancel, neg_add_cancel_comm_assoc]
    exact h

/-- The text of a finite double is a literal of it. -/
lemma literalOf_text : ∃ text, Number.doubleText? x = some text ∧ LiteralOf text.toList x := by
  unfold Number.doubleText?
  rw [hx]
  refine ⟨_, rfl, ?_⟩
  rw [String.toList_ofList]
  have hsign : ∀ body : List Char,
      (if negative = true then '-' :: body else body) = signChars negative ++ body := by
    intro body
    unfold signChars
    split <;> rfl
  rw [hsign]
  split
  · rename_i hzero
    exact literalOf_point hx (.inl rfl) (List.cons_ne_nil '0' []) (isDigit_of_mem_zeros 1)
      ⟨rfl, fun _ => rfl, fun hm => by omega⟩
  · rename_i hne
    have hm := Nat.pos_of_ne_zero hne
    obtain ⟨hcanonical, -⟩ := Number.eq_ofBits_of_finite hx
    obtain ⟨c, e, hshortest, hc, h⟩ := Format.exists_shortest hcanonical hm
    simp only [hshortest]
    unfold Number.NumberForm.layOut
    dsimp only
    split
    · exact literalOf_positional hx hc hm h
    · exact literalOf_scientific hx hc hm h

end LayOut

/-! ### The codec of doubles -/

/-- A number starts a value. -/
lemma opensValue_of_number {c : Char} (h : (c = '-' || isDigit c) = true) :
    opensValue c = true := by
  unfold opensValue
  rw [Bool.or_assoc (decide (c = '"')), h, Bool.or_true, Bool.true_or, Bool.true_or]

/-- The reader of literals gives a double for the text that is written for it. -/
def NumberReader.ReadsBack (numbers : NumberReader) (x : Float) : Prop :=
  ∀ text, Number.doubleText? x = some text → numbers.read text = x

/-- Every finite double is the nearest one to its text. -/
theorem NumberReader.nearest_readsBack {x : Float} (hx : Number.FiniteDouble x) :
    NumberReader.nearest.ReadsBack x := by
  obtain ⟨negative, m, q, hx⟩ := hx
  obtain ⟨text, htext, hliteral⟩ := literalOf_text hx
  intro text' htext'
  cases htext.symm.trans htext'
  exact hliteral.nearest

-- The digits of this double are scaled to one of its neighbours.
example : ¬ NumberReader.scaled.ReadsBack (.ofBits 4606689461049798204) := by
  unfold NumberReader.ReadsBack
  decide +kernel

/-- Finite doubles are read back if the reader of literals gives them for their texts. -/
theorem Codec.double_faithful {numbers : NumberReader} :
    Codec.double.Faithful numbers 0 fun x => Number.FiniteDouble x ∧ numbers.ReadsBack x where
  starts x hx := by
    obtain ⟨⟨negative, m, q, hx⟩, -⟩ := hx
    obtain ⟨text, htext, ⟨c, s, hc, hfirst⟩, -⟩ := literalOf_text hx
    change Starts (Numeral.text (.double x)).toList
    rw [Numeral.text, htext]
    exact ⟨c, s, hc, opensValue_of_number hfirst⟩
  reads x hx depth _ := by
    obtain ⟨hfinite, hback⟩ := hx
    obtain ⟨negative, m, q, hx⟩ := id hfinite
    obtain ⟨text, htext, ⟨c, s, hc, hfirst⟩, htaken, -⟩ := literalOf_text hx
    intro rest hrest
    have hrun : (Reader.number numbers).run (text.toList ++ rest) = .ok (.double x, rest) := by
      unfold Reader.number
      rw [run_bind_of_ok (Scanner.run_taking (htaken rest hrest))]
      simp only [String.ofList_toList]
      rw [hback text htext, run_inRange hfinite]
    change (Codec.double.read numbers depth).run
      ((Numeral.text (.double x)).toList ++ rest) = _
    rw [Numeral.text, htext, Option.getD_some]
    simp only [Codec.double]
    rw [hc, List.cons_append] at hrun ⊢
    rw [Reader.run_value (isSpace_of_opensValue (opensValue_of_number hfirst)), if_pos hfirst,
      run_bind_of_ok hrun]
    rfl

end DialogChart.Json
