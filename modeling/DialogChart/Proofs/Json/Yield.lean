import DialogChart.Proofs.Json.Reading
import DialogChart.Proofs.Number.Bits
import DialogChart.Proofs.Table

/-!
# What a reader can return

A reader may only return values of a certain kind, whatever the text (`Scanner.Yields`).  The rules
follow the way in which readers are put together; for items between brackets and for records they
carry an invariant from one item to the next.

A number that is read is finite, however literals are read: doubles beyond the range are refused,
and integers fit into 64 bits (`Codec.double_yields`).
-/

namespace DialogChart

namespace Scanner

variable {ε α β : Type} {P : α → Prop} {Q : β → Prop}

/-- The scanner returns only values that satisfy `P`. -/
def Yields (p : Scanner ε α) (P : α → Prop) : Prop :=
  ∀ ⦃s : List Char⦄ ⦃a : α⦄ ⦃r : List Char⦄, p.run s = .ok (a, r) → P a

/-- Without a condition there is nothing to show. -/
lemma yields_true (p : Scanner ε α) : p.Yields fun _ => True :=
  fun _ _ _ _ => trivial

/-- A value that is known is returned. -/
lemma yields_pure {a : α} (h : P a) : (pure a : Scanner ε α).Yields P := by
  intro s b r hrun
  cases hrun
  exact h

/-- A scanner that stops returns nothing. -/
lemma yields_stop (error : List Char → ε) : (stop error : Scanner ε α).Yields P :=
  fun _ _ _ hrun => nomatch hrun

/-- The next scanner knows what the first one returns. -/
lemma Yields.bind {p : Scanner ε α} {f : α → Scanner ε β} (hp : p.Yields P)
    (hf : ∀ a, P a → (f a).Yields Q) : (p >>= f).Yields Q := by
  intro s b r hrun
  change (p.andThen f).run s = _ at hrun
  unfold andThen at hrun
  cases hfirst : p.run s with
  | error e => simp [hfirst] at hrun
  | ok x =>
    obtain ⟨a, t⟩ := x
    simp only [hfirst] at hrun
    exact hf a (hp hfirst) hrun

/-- Returning also what was taken changes nothing. -/
lemma Yields.taking {p : Scanner ε α} (hp : p.Yields P) :
    p.taking.Yields fun found => P found.1 := by
  intro s found r hrun
  simp only [Scanner.taking] at hrun
  cases hfirst : p.run s with
  | error e => simp [hfirst] at hrun
  | ok x =>
    obtain ⟨a, t⟩ := x
    simp only [hfirst, Except.ok.injEq, Prod.mk.injEq] at hrun
    rw [← hrun.1]
    exact hp hfirst

/-- The next scanner decides alone. -/
lemma yields_bind {p : Scanner ε α} {f : α → Scanner ε β} (hf : ∀ a, (f a).Yields Q) :
    (p >>= f).Yields Q :=
  p.yields_true.bind fun a _ => hf a

end Scanner

namespace Json

open Scanner (yields_bind yields_pure yields_stop)

variable {numbers : NumberReader} {α σ : Type} {P : α → Prop}

/-! ### Brackets -/

namespace Reader

/-- A value is read by one of the readers for its first character. -/
lemma yields_value {f : Char → Reader α} (hf : ∀ c, (f c).Yields P) : (value f).Yields P := by
  refine yields_bind fun c => ?_
  cases c with
  | none => exact yields_stop _
  | some c => exact hf c

/-- A value of the wrong type is never returned. -/
lemma yields_mismatch (numbers : NumberReader) (expected : String) (c : Char) :
    (mismatch numbers expected c : Reader α).Yields P := by
  unfold mismatch
  split
  · exact yields_stop _
  · split
    · exact yields_stop _
    · exact yields_bind fun v => yields_stop _

end Reader

namespace Bracket

variable {b : Bracket}

/-- The closing bracket adds nothing. -/
lemma yields_closed {body : Reader α} (h : body.Yields P) : (b.closed body).Yields P := by
  intro s a r hrun
  cases hbody : body.run s with
  | error e =>
    simp only [closed, hbody] at hrun
    cases e <;> cases hrun
  | ok x =>
    obtain ⟨a', t⟩ := x
    simp only [closed, hbody] at hrun
    split at hrun
    · cases hrun
      exact h hbody
    · cases hrun

/-- The brackets add nothing. -/
lemma yields_enclose {body : Nat → Reader α} (h : ∀ depth, (body depth).Yields P) (depth : Nat) :
    (b.enclose depth body).Yields P := by
  cases depth with
  | zero => exact yields_stop _
  | succ depth => exact yields_bind fun _ => yields_closed (h depth)

/-- An invariant of the state is kept by the items behind the first one. -/
lemma yields_foldRest {I : σ → Prop} {step : σ → Reader σ}
    (hstep : ∀ state, I state → (step state).Yields I) {state last : σ} {s r : List Char}
    (hstate : I state) (hrun : b.foldRest step state s = .ok (last, r)) : I last := by
  fun_induction foldRest b step state s with
  | case1 => cases hrun
  | case2 state s r hs =>
    cases hrun
    exact hstate
  | case3 => cases hrun
  | case4 state s t hs next u hnext ih => exact ih (hstep state hstate hnext) hrun

/-- An invariant of the state is kept by the items. -/
lemma yields_fold {I : σ → Prop} {step : σ → Reader σ}
    (hstep : ∀ state, I state → (step state).Yields I) {state : σ} (hstate : I state) :
    (b.fold step state).Yields I := by
  refine yields_bind fun more => ?_
  cases more with
  | false => exact yields_pure hstate
  | true =>
    refine (hstep state hstate).bind fun next hnext => ?_
    intro s last r hrun
    exact yields_foldRest hstep hnext hrun

end Bracket

/-! ### Codecs -/

namespace Codec

/-- The codec reads only values that satisfy `P`. -/
def Yields (c : Codec α) (numbers : NumberReader) (P : α → Prop) : Prop :=
  ∀ depth, (c.read numbers depth).Yields P

/-- Without a condition there is nothing to show. -/
lemma yields_true (numbers : NumberReader) (c : Codec α) : c.Yields numbers fun _ => True :=
  fun depth => (c.read numbers depth).yields_true

/-- The value of a whole document satisfies `P`. -/
lemma Yields.of_parse {c : Codec α} (h : c.Yields numbers P) {source : String} {a : α}
    (hparse : c.parse numbers source = .ok a) : P a := by
  unfold parse Reader.whole at hparse
  dsimp only at hparse
  split at hparse
  · rename_i a' r hrun
    cases hparse
    refine (h depthLimit).bind (fun a ha => ?_) hrun
    refine yields_bind fun next => ?_
    cases next with
    | none => exact yields_pure ha
    | some c => exact yields_stop _
  · cases hparse

/-- The records of a table that is read satisfy what its codec yields. -/
lemma Yields.table {c : Codec α} (h : c.Yields numbers P) :
    (table c).Yields numbers fun t => ∀ a ∈ t.records, P a := by
  intro depth
  refine Reader.yields_value fun b => ?_
  split
  · refine Bracket.yields_enclose (fun depth => ?_) depth
    refine Bracket.yields_fold (fun found hfound => ?_) (fun a ha => nomatch ha)
    refine yields_bind fun name => yields_bind fun _ => (h depth).bind fun a ha => yields_pure ?_
    intro a' ha'
    obtain ⟨entry, hentry, rfl⟩ := List.mem_map.mp ha'
    exact (Table.mem_put hentry).elim (fun heq => heq ▸ ha)
      fun hmem => hfound _ (List.mem_map_of_mem hmem)
  · exact Reader.yields_mismatch _ _ _

end Codec

/-! ### Records -/

namespace Field

variable {I : σ → Prop}

/-- What is read for the field keeps the property `I` of records. -/
def Keeps (f : Field σ) (numbers : NumberReader) (I : σ → Prop) : Prop :=
  ∀ depth, (f.read numbers depth).Yields fun update => ∀ r, I r → I (update r)

/-- A field that has to be there. -/
lemma mandatory_keeps {c : Codec α} (hc : c.Yields numbers P) {name : String} {get : σ → α}
    {set : α → σ → σ} (h : ∀ a r, P a → I r → I (set a r)) :
    (mandatory name c get set).Keeps numbers I :=
  fun depth => (hc depth).bind fun a ha => yields_pure fun r hr => h a r ha hr

/-- A field that may be missing. -/
lemma defaulted_keeps {c : Codec α} (hc : c.Yields numbers P) {name : String} {get : σ → α}
    {set : α → σ → σ} (h : ∀ a r, P a → I r → I (set a r)) :
    (defaulted name c get set).Keeps numbers I :=
  fun depth => (hc depth).bind fun a ha => yields_pure fun r hr => h a r ha hr

/-- A field that may be missing or `null`. -/
lemma optional_keeps {c : Codec α} (hc : c.Yields numbers P) {name : String} {get : σ → Option α}
    {set : Option α → σ → σ} (hnone : ∀ r, I r → I (set none r))
    (hsome : ∀ a r, P a → I r → I (set (some a) r)) :
    (optional name c get set).Keeps numbers I := by
  intro depth
  refine Reader.yields_value fun b => ?_
  split
  · exact yields_bind fun _ => yields_bind fun _ => yields_pure hnone
  · exact (hc depth).bind fun a ha => yields_pure fun r hr => hsome a r ha hr

end Field

namespace Shape

variable {shape : Shape σ} {I : σ → Prop}

/-- The fields of a list keep a property of records. -/
lemma yields_readFields {depth : Nat} (fields : List (Field σ))
    (hfields : ∀ f ∈ fields, f.Keeps numbers I) (present : Nat) {r : σ} (hr : I r) :
    (shape.readFields numbers depth fields present r).Yields I := by
  induction fields generalizing present r with
  | nil => exact yields_pure hr
  | cons f fields ih =>
    refine yields_bind fun more => ?_
    split
    · refine (hfields f List.mem_cons_self depth).bind fun update hupdate => ?_
      exact ih (fun g hg => hfields g (List.mem_cons_of_mem f hg)) (present + 1) (hupdate r hr)
    · split
      · exact yields_stop _
      · exact yields_pure hr

/-- A member keeps a property of records. -/
lemma yields_readMember {depth : Nat} (hfields : ∀ f ∈ shape.fields, f.Keeps numbers I)
    {state : σ × List String} (hstate : I state.1) :
    (shape.readMember numbers depth state).Yields fun next => I next.1 := by
  obtain ⟨r, seen⟩ := state
  refine yields_bind fun name => ?_
  split
  · rename_i f hfind
    split
    · exact yields_stop _
    · refine yields_bind fun _ => ?_
      refine (hfields f (List.mem_of_find?_eq_some hfind) depth).bind fun update hupdate => ?_
      exact yields_pure (hupdate r hstate)
  · exact yields_bind fun _ => yields_bind fun _ => yields_pure hstate

/-- Records that are read have every property that the template has and the fields keep. -/
theorem yields (htemplate : I shape.template) (hfields : ∀ f ∈ shape.fields, f.Keeps numbers I) :
    shape.codec.Yields numbers I := by
  intro depth
  refine Reader.yields_value fun b => ?_
  split
  · exact Bracket.yields_enclose
      (fun depth => yields_readFields shape.fields hfields 0 htemplate) depth
  · split
    · refine Bracket.yields_enclose (fun depth => ?_) depth
      have hmembers : (Bracket.object.fold (shape.readMember numbers depth)
          (shape.template, [])).Yields fun state => I state.1 :=
        Bracket.yields_fold (fun state hstate => yields_readMember hfields hstate) htemplate
      refine hmembers.bind fun state hstate => ?_
      obtain ⟨r, seen⟩ := state
      dsimp only
      split
      · exact yields_stop _
      · exact yields_pure hstate
    · exact Reader.yields_mismatch _ _ _

end Shape

/-! ### Numbers -/

/-- The double of a literal that is in range is finite. -/
lemma yields_inRange (x : Float) :
    (Reader.inRange x).Yields fun n => Number.FiniteDouble (Codec.toDouble n) := by
  unfold Reader.inRange
  split
  · rename_i negative m q hx
    exact yields_pure ⟨negative, m, q, hx⟩
  · exact yields_stop _

/-- The kind of number that is told by its form: an integer fits into 64 bits. -/
def Reader.NumeralKind.Fits : Reader.NumeralKind → Prop
  | .integer i => i.natAbs ≤ 1 <<< 64
  | _ => True

/-- A number that is written as an integer is one only if it fits into 64 bits. -/
lemma fits_integerKind (negative : Bool) (n : ℕ) : (Reader.integerKind negative n).Fits := by
  unfold Reader.integerKind
  split
  · split
    · trivial
    · rename_i hfits
      rw [not_or, Nat.not_lt] at hfits
      change (-(n : ℤ)).natAbs ≤ 1 <<< 64
      rw [Int.natAbs_neg, Int.natAbs_natCast]
      exact hfits.2.trans (by decide)
  · split
    · rename_i hfits
      exact hfits.le
    · trivial

/-- An integer that is taken fits into 64 bits. -/
lemma yields_numeralKind : Reader.numeralKind.Yields Reader.NumeralKind.Fits := by
  have hexponent : ∀ negative isZero,
      (Reader.exponentPart negative isZero).Yields Reader.NumeralKind.Fits := by
    intro negative isZero
    refine yields_bind fun small => yields_bind fun next => ?_
    split
    · exact yields_stop _
    · split
      · refine yields_bind fun exponent => ?_
        split
        · exact yields_pure trivial
        · split
          · exact yields_stop _
          · exact yields_bind fun _ => yields_pure trivial
      · exact yields_stop _
  refine yields_bind fun negative => yields_bind fun whole => yields_bind fun fraction =>
    yields_bind fun next => ?_
  split
  · exact yields_bind fun _ => hexponent _ _
  · exact yields_bind fun _ => hexponent _ _
  · refine yields_pure ?_
    split
    · trivial
    · exact fits_integerKind _ _

/-- A number that is read is a finite double, however literals are read. -/
lemma yields_number (numbers : NumberReader) :
    (Reader.number numbers).Yields fun n => Number.FiniteDouble (Codec.toDouble n) := by
  refine yields_numeralKind.taking.bind fun found hfits => ?_
  obtain ⟨kind, literal⟩ := found
  cases kind with
  | integer i => exact yields_pure (Number.finiteDouble_of_le _ hfits)
  | vanishing negative => exact yields_pure (Number.finiteDouble_of_le negative (Nat.zero_le _))
  | literal => exact yields_inRange _

/-- Only finite doubles are read. -/
theorem Codec.double_yields : Codec.double.Yields numbers Number.FiniteDouble := by
  intro depth
  refine Reader.yields_value fun c => ?_
  split
  · exact (yields_number numbers).bind fun n hn => yields_pure hn
  · exact Reader.yields_mismatch _ _ _

end Json

end DialogChart
