import DialogChart.Color.Parser
import DialogChart.Proofs.Number.SignedZero

/-!
# Equal colours and their texts

Colours are compared by their components, as numbers, and a set files them under their text.  The
two agree but for one case: zero and zero with a minus sign are equal and are written differently.

So equal colours are written alike exactly when the same components of both are negative zeros
(`text_eq_iff`), and a set may keep two equal colours exactly when the list it was filled from has
equal colours that differ in this way (`pairwise_filed_iff`).  Reading a text gives a negative zero
only where the text has a minus sign (`parse_not_negative`).
-/

namespace DialogChart.Color

open Number

/-! ### Components -/

/-- Whether a component is zero with a minus sign. -/
def isNegativeZero (x : Component) : Bool :=
  x = some negativeZero

/-- Which components of a colour are zero with a minus sign. -/
def negativeZeros : Color → List Bool
  | .named _ => []
  | .rgb r g b a => [isNegativeZero r, isNegativeZero g, isNegativeZero b, isNegativeZero a]

/-- Equal components are the same, up to the sign of a zero. -/
lemma sameComponent_cases {x y : Component} (h : sameComponent x y = true) :
    x = y ∨ (x = some 0 ∧ y = some negativeZero) ∨ (x = some negativeZero ∧ y = some 0) := by
  cases x with
  | none =>
    cases y with
    | none => exact .inl rfl
    | some y => cases h
  | some x =>
    cases y with
    | none => cases h
    | some y =>
      rcases beq_iff.mp h with ⟨rfl, -⟩ | ⟨rfl | rfl, rfl | rfl⟩
      · exact .inl rfl
      · exact .inl rfl
      · exact .inr (.inl ⟨rfl, rfl⟩)
      · exact .inr (.inr ⟨rfl, rfl⟩)
      · exact .inl rfl

/-- Equality of components can be turned round. -/
lemma sameComponent_symm {x y : Component} (h : sameComponent x y = true) :
    sameComponent y x = true := by
  cases x with
  | none => cases y <;> exact h
  | some x =>
    cases y with
    | none => exact h
    | some y =>
      refine beq_iff.mpr ?_
      rcases beq_iff.mp h with ⟨rfl, hnumber⟩ | ⟨hx, hy⟩
      · exact .inl ⟨rfl, hnumber⟩
      · exact .inr ⟨hy, hx⟩

/-- Components that are equal to one component are equal. -/
lemma sameComponent_trans {x y z : Component} (h : sameComponent x y = true)
    (h' : sameComponent y z = true) : sameComponent x z = true := by
  cases x with
  | none =>
    cases y with
    | none => exact h'
    | some y => cases h
  | some x =>
    cases y with
    | none => cases h
    | some y =>
      cases z with
      | none => cases h'
      | some z =>
        refine beq_iff.mpr ?_
        rcases beq_iff.mp h with ⟨rfl, -⟩ | ⟨hx, hy⟩
        · exact beq_iff.mp h'
        · rcases beq_iff.mp h' with ⟨rfl, -⟩ | ⟨-, hz⟩
          · exact .inr ⟨hx, hy⟩
          · exact .inr ⟨hx, hz⟩

/-- Two texts are the same, or they are the texts of zero without and with a sign. -/
def ZeroApart (p q : String) : Prop :=
  p = q ∨ (p = "0" ∧ q = "-0") ∨ (p = "-0" ∧ q = "0")

/-- The texts of equal components differ at most in the sign of a zero, and they do so exactly if
one of the components is a negative zero and the other one is not. -/
lemma text_of_sameComponent {f : Component → String} (hzero : f (some 0) = "0")
    (hnegative : f (some negativeZero) = "-0") {x y : Component} (h : sameComponent x y = true) :
    ZeroApart (f x) (f y) ∧ (f x = f y ↔ isNegativeZero x = isNegativeZero y) := by
  rcases sameComponent_cases h with rfl | ⟨rfl, rfl⟩ | ⟨rfl, rfl⟩
  · exact ⟨.inl rfl, iff_of_true rfl rfl⟩
  · rw [hzero, hnegative]
    exact ⟨.inr (.inl ⟨rfl, rfl⟩), by decide⟩
  · rw [hzero, hnegative]
    exact ⟨.inr (.inr ⟨rfl, rfl⟩), by decide⟩

/-- Equal opacities are written or left out together. -/
lemma isTranslucent_eq {a b : Component} (h : sameComponent a b = true) :
    isTranslucent a = isTranslucent b := by
  rcases sameComponent_cases h with rfl | ⟨rfl, rfl⟩ | ⟨rfl, rfl⟩
  · rfl
  · decide
  · decide

/-- An opacity that is left out is not zero. -/
lemma isNegativeZero_of_full {a b : Component} (h : sameComponent a b = true)
    (hfull : isTranslucent a = false) : isNegativeZero a = isNegativeZero b := by
  rcases sameComponent_cases h with rfl | ⟨rfl, rfl⟩ | ⟨rfl, rfl⟩
  · rfl
  · exact absurd hfull (by decide)
  · exact absurd hfull (by decide)

/-! ### Texts -/

/-- The parts of a list of texts that differ at most in the signs of zeros are told by the whole. -/
lemma eq_of_intercalate_eq {ps qs : List String} (h : List.Forall₂ ZeroApart ps qs)
    (heq : ", ".intercalate ps = ", ".intercalate qs) : ps = qs := by
  have hsign : ∀ s t : String, "0" ++ s ≠ "-0" ++ t := by
    intro s t hst
    have hlist := congrArg String.toList hst
    simp at hlist
  induction h with
  | nil => rfl
  | @cons p q ps qs hpq hrest ih =>
    cases hrest with
    | nil =>
      rw [String.intercalate_singleton, String.intercalate_singleton] at heq
      rw [heq]
    | cons _ _ =>
      rw [String.intercalate_cons_cons, String.intercalate_cons_cons, String.append_assoc,
        String.append_assoc] at heq
      rcases hpq with rfl | ⟨rfl, rfl⟩ | ⟨rfl, rfl⟩
      · rw [String.append_right_inj, String.append_right_inj] at heq
        rw [ih heq]
      · exact absurd heq (hsign _ _)
      · exact absurd heq.symm (hsign _ _)

/-- The parts of which the text of a colour is made. -/
def parts (r g b a : Component) : List String :=
  [scaledText r, scaledText g, scaledText b] ++
    if isTranslucent a then [componentText a] else []

/-- The text of a colour is told by its parts. -/
lemma text_rgb (r g b a : Component) :
    (Color.rgb r g b a).text =
      (if isTranslucent a then "rgba(" else "rgb(") ++ ", ".intercalate (parts r g b a) ++ ")" := by
  unfold text parts
  dsimp only
  split
  · rfl
  · rw [List.append_nil]

/-- Colours of components are equal if their components are. -/
lemma rgb_beq_iff {r g b a r' g' b' a' : Component} :
    (Color.rgb r g b a == Color.rgb r' g' b' a') = true ↔
      sameComponent r r' = true ∧ sameComponent g g' = true ∧ sameComponent b b' = true ∧
        sameComponent a a' = true := by
  change (sameComponent r r' && sameComponent g g' && sameComponent b b' &&
    sameComponent a a') = true ↔ _
  simp only [Bool.and_eq_true, and_assoc]

/-- Equal colours are written alike exactly if the same components of both are negative zeros. -/
lemma text_eq_iff {c c' : Color} (h : (c == c') = true) :
    c.text = c'.text ↔ c.negativeZeros = c'.negativeZeros := by
  cases c with
  | named name =>
    cases c' with
    | named name' =>
      have hname : name = name' := by
        change decide (name = name') = true at h
        exact of_decide_eq_true h
      rw [hname]
      exact iff_of_true rfl rfl
    | rgb r g b a => cases h
  | rgb r g b a =>
    cases c' with
    | named name => cases h
    | rgb r' g' b' a' =>
      obtain ⟨hr, hg, hb, ha⟩ := rgb_beq_iff.mp h
      obtain ⟨hrz, hriff⟩ := text_of_sameComponent (f := scaledText) (by decide) (by decide) hr
      obtain ⟨hgz, hgiff⟩ := text_of_sameComponent (f := scaledText) (by decide) (by decide) hg
      obtain ⟨hbz, hbiff⟩ := text_of_sameComponent (f := scaledText) (by decide) (by decide) hb
      obtain ⟨haz, haiff⟩ := text_of_sameComponent (f := componentText) (by decide) (by decide) ha
      have hapart : List.Forall₂ ZeroApart (parts r g b a) (parts r' g' b' a') := by
        unfold parts
        rw [← isTranslucent_eq ha]
        cases isTranslucent a <;> simp [hrz, hgz, hbz, haz]
      have hparts : (Color.rgb r g b a).text = (Color.rgb r' g' b' a').text ↔
          parts r g b a = parts r' g' b' a' := by
        rw [text_rgb, text_rgb, ← isTranslucent_eq ha, String.append_left_inj,
          String.append_right_inj]
        exact ⟨eq_of_intercalate_eq hapart, fun heq => by rw [heq]⟩
      rw [hparts]
      unfold parts negativeZeros
      rw [← isTranslucent_eq ha]
      cases hfull : isTranslucent a with
      | false => simp [hriff, hgiff, hbiff, isNegativeZero_of_full ha hfull]
      | true => simp [hriff, hgiff, hbiff, haiff]

/-! ### Sets of colours -/

/-- Equality of colours can be turned round. -/
lemma beq_symm {c c' : Color} (h : (c == c') = true) : (c' == c) = true := by
  cases c with
  | named name =>
    cases c' with
    | named name' =>
      have hname : name = name' := of_decide_eq_true h
      exact decide_eq_true hname.symm
    | rgb r g b a => cases h
  | rgb r g b a =>
    cases c' with
    | named name => cases h
    | rgb r' g' b' a' =>
      rw [rgb_beq_iff] at h ⊢
      exact ⟨sameComponent_symm h.1, sameComponent_symm h.2.1, sameComponent_symm h.2.2.1,
        sameComponent_symm h.2.2.2⟩

/-- Colours that are equal to one colour are equal. -/
lemma beq_trans {c d e : Color} (h : (c == d) = true) (h' : (d == e) = true) :
    (c == e) = true := by
  cases d with
  | named name =>
    cases c with
    | rgb r g b a => cases h
    | named name' =>
      have hname : name' = name := of_decide_eq_true h
      rw [hname]
      exact h'
  | rgb r g b a =>
    cases c with
    | named name => cases h
    | rgb r' g' b' a' =>
      cases e with
      | named name => cases h'
      | rgb r'' g'' b'' a'' =>
        rw [rgb_beq_iff] at h h' ⊢
        exact ⟨sameComponent_trans h.1 h'.1, sameComponent_trans h.2.1 h'.2.1,
          sameComponent_trans h.2.2.1 h'.2.2.1, sameComponent_trans h.2.2.2 h'.2.2.2⟩

/-- A colour stands for another one in a set. -/
def StandsFor (k c : Color) : Prop :=
  k = c ∨ ((k == c) = true ∧ k.text = c.text)

/-- A colour that stands for another one is written like it. -/
lemma StandsFor.text_eq {k c : Color} (h : StandsFor k c) : k.text = c.text := by
  rcases h with rfl | ⟨-, htext⟩
  · rfl
  · exact htext

/-- A colour that stands for another one is equal to what the other one is equal to. -/
lemma StandsFor.beq {k c d : Color} (h : StandsFor k c) (hd : (c == d) = true) :
    (k == d) = true := by
  rcases h with rfl | ⟨hsame, -⟩
  · exact hd
  · exact beq_trans hsame hd

/-- A set keeps a colour or has one that stands for it. -/
lemma file_cases (kept : List Color) (c : Color) :
    (file kept c = kept ∧ ∃ k ∈ kept, (k == c) = true ∧ k.text = c.text) ∨
      (file kept c = c :: kept ∧ ∀ k ∈ kept, (k == c) = true → k.text ≠ c.text) := by
  unfold file
  by_cases h : (kept.any fun k => k == c && k.text = c.text) = true
  · rw [if_pos h]
    refine .inl ⟨rfl, ?_⟩
    simpa using h
  · rw [if_neg h]
    refine .inr ⟨rfl, ?_⟩
    simpa using h

/-- Whatever has been filed stays. -/
lemma subset_foldl_file (kept colors : List Color) : kept ⊆ colors.foldl file kept := by
  induction colors generalizing kept with
  | nil => exact List.Subset.refl _
  | cons c colors ih =>
    refine List.Subset.trans ?_ (ih (file kept c))
    rcases file_cases kept c with ⟨heq, -⟩ | ⟨heq, -⟩
    · rw [heq]
      exact List.Subset.refl _
    · rw [heq]
      exact List.subset_cons_self _ _

/-- A set has a colour for every colour of the list it was filled from. -/
lemma exists_standsFor {kept colors : List Color} {c : Color} (h : c ∈ colors) :
    ∃ k ∈ colors.foldl file kept, StandsFor k c := by
  induction colors generalizing kept with
  | nil => cases h
  | cons d colors ih =>
    rcases List.mem_cons.mp h with rfl | h
    · have hstay := subset_foldl_file (file kept c) colors
      rcases file_cases kept c with ⟨heq, k, hk, hsame, htext⟩ | ⟨heq, -⟩
      · exact ⟨k, hstay (heq.symm ▸ hk), .inr ⟨hsame, htext⟩⟩
      · exact ⟨c, hstay (heq.symm ▸ List.mem_cons_self), .inl rfl⟩
    · exact ih h

/-- A set keeps colours of the list it was filled from. -/
lemma mem_of_mem_foldl_file {kept colors : List Color} {k : Color}
    (h : k ∈ colors.foldl file kept) : k ∈ kept ∨ k ∈ colors := by
  induction colors generalizing kept with
  | nil => exact .inl h
  | cons c colors ih =>
    rcases ih h with hk | hk
    · rcases file_cases kept c with ⟨heq, -⟩ | ⟨heq, -⟩
      · exact .inl (heq ▸ hk)
      · rw [heq] at hk
        rcases List.mem_cons.mp hk with rfl | hk
        · exact .inr List.mem_cons_self
        · exact .inl hk
    · exact .inr (List.mem_cons_of_mem _ hk)

/-- Two equal colours of a set are written differently. -/
lemma pairwise_foldl_file {kept : List Color} (colors : List Color)
    (h : kept.Pairwise fun c c' => (c == c') = true → c.text ≠ c'.text) :
    (colors.foldl file kept).Pairwise fun c c' => (c == c') = true → c.text ≠ c'.text := by
  induction colors generalizing kept with
  | nil => exact h
  | cons c colors ih =>
    refine ih ?_
    rcases file_cases kept c with ⟨heq, -⟩ | ⟨heq, hnew⟩
    · rw [heq]
      exact h
    · rw [heq]
      refine List.pairwise_cons.mpr ⟨fun k hk hsame => ?_, h⟩
      exact (hnew k hk (beq_symm hsame)).symm

/-- A set keeps no two equal colours exactly if equal colours of the list it was filled from have
their negative zeros in common. -/
lemma pairwise_filed_iff (colors : List Color) :
    ((filed colors).Pairwise fun c c' => (c == c') = false) ↔
      ∀ c ∈ colors, ∀ c' ∈ colors, (c == c') = true → c.negativeZeros = c'.negativeZeros := by
  constructor
  · intro h c hc c' hc' hsame
    obtain ⟨k, hk, hkc⟩ := @exists_standsFor [] colors c hc
    obtain ⟨k', hk', hkc'⟩ := @exists_standsFor [] colors c' hc'
    -- The colours that stand for the two are equal, so the set keeps one for both.
    have hkeep : (k' == k) = true := hkc'.beq (beq_symm (hkc.beq hsame))
    have hone : k' = k := by
      by_contra hne
      have hsymm : Std.Symm fun c c' : Color => (c == c') = false := by
        refine ⟨fun c c' hfalse => ?_⟩
        rw [← Bool.not_eq_true] at hfalse ⊢
        exact mt beq_symm hfalse
      have hapart := h.forall hk' hk hne
      rw [hkeep] at hapart
      cases hapart
    refine (text_eq_iff hsame).mp ?_
    rw [← hkc.text_eq, ← hkc'.text_eq, hone]
  · intro h
    have hmem : ∀ k ∈ filed colors, k ∈ colors := fun k hk =>
      (mem_of_mem_foldl_file hk).resolve_left List.not_mem_nil
    refine (pairwise_foldl_file colors List.Pairwise.nil).imp_of_mem ?_
    intro k k' hk hk' hapart
    cases hsame : k == k' with
    | false => rfl
    | true =>
      exact absurd ((text_eq_iff hsame).mpr (h k (hmem k hk) k' (hmem k' hk') hsame))
        (hapart hsame)

/-! ### Minus signs in texts

What is left of a text has no characters that the text does not have, so a text without a minus
sign is read without one. -/

/-- What follows a comment is part of the text. -/
lemma closeComment?_subset {s r : List Char} (h : closeComment? s = some r) : r ⊆ s := by
  fun_induction closeComment? s with
  | case1 => cases h
  | case2 s =>
    cases h
    exact List.subset_cons_of_subset _ (List.subset_cons_self _ _)
  | case3 c s hs ih => exact List.subset_cons_of_subset _ (ih h)

/-- What follows the comments is part of the text. -/
lemma skipComments?_subset {s r : List Char} (h : skipComments? s = some r) : r ⊆ s := by
  fun_induction skipComments? s with
  | case1 t r' hclose ih =>
    refine List.Subset.trans (ih h) ?_
    exact List.subset_cons_of_subset _ (List.subset_cons_of_subset _ (closeComment?_subset hclose))
  | case2 t hclose => cases h
  | case3 s hs =>
    cases h
    exact List.Subset.refl _

/-- What follows the closed comments is part of the text. -/
lemma behindComments_subset (s : List Char) : behindComments s ⊆ s := by
  fun_induction behindComments s with
  | case1 t r hclose ih =>
    refine List.Subset.trans ih ?_
    exact List.subset_cons_of_subset _ (List.subset_cons_of_subset _ (closeComment?_subset hclose))
  | case2 t hclose => exact List.Subset.refl _
  | case3 s hs => exact List.Subset.refl _

/-- What follows the blanks is part of the text. -/
lemma skipSpace_subset (s : List Char) : skipSpace s ⊆ s := by
  have hblank : (behindComments s).dropWhile isSpace ⊆ s :=
    List.Subset.trans (List.dropWhile_sublist _).subset (behindComments_subset s)
  rw [skipSpace]
  split
  · exact List.Subset.trans (skipSpace_subset _) hblank
  · exact hblank
termination_by s.length

/-- What follows a character is part of the text. -/
lemma takeChar_subset (c : Char) (s : List Char) : (takeChar c s).2 ⊆ s := by
  unfold takeChar
  cases h : skipComments? s with
  | none => exact behindComments_subset s
  | some t =>
    cases t with
    | nil => exact List.nil_subset _
    | cons d r =>
      dsimp only
      split
      · exact List.Subset.trans (List.subset_cons_self _ _) (skipComments?_subset h)
      · exact skipComments?_subset h

/-- What follows the characters of an identifier is part of the text. -/
lemma identifierSpan_subset (s : List Char) : (identifierSpan s).2 ⊆ s := by
  unfold identifierSpan
  split
  · exact List.Subset.refl _
  · split
    · split
      · exact List.nil_subset _
      · split
        · refine List.subset_cons_of_subset _ (List.subset_cons_of_subset _ ?_)
          exact (List.dropWhile_sublist _).subset
        · exact List.subset_cons_self _ _
    · exact List.Subset.refl _

/-- What follows an identifier is part of the text. -/
lemma identifier?_subset {s name r : List Char} (h : identifier? s = some (name, r)) : r ⊆ s := by
  have hspan := identifierSpan_subset s
  unfold identifier? at h
  dsimp only at h
  split at h
  · cases h
  · cases h
  · cases h
  · cases h
    exact hspan

/-- What follows a sign is part of the text, and the sign is in the text. -/
lemma sign_subset (s : List Char) : (sign s).2 ⊆ s ∧ ('-' ∉ s → (sign s).1 = false) := by
  unfold sign
  split
  · exact ⟨List.subset_cons_self _ _, fun _ => rfl⟩
  · exact ⟨List.subset_cons_self _ _, fun h => absurd List.mem_cons_self h⟩
  · exact ⟨List.Subset.refl _, fun _ => rfl⟩

/-- What follows the places behind a point is part of the text. -/
lemma places_subset (s : List Char) : (places s).2 ⊆ s := by
  unfold places
  split
  · dsimp only
    split
    · exact List.Subset.refl _
    · exact List.subset_cons_of_subset _ (List.dropWhile_sublist _).subset
  · exact List.Subset.refl _

/-- What follows the digits of an exponent is part of the text. -/
lemma exponentValue?_subset {s r : List Char} {e : Int} (h : exponentValue? s = some (e, r)) :
    r ⊆ s := by
  unfold exponentValue? at h
  dsimp only at h
  split at h
  · cases h
  · cases h
    exact List.Subset.trans (List.dropWhile_sublist _).subset (sign_subset s).1

/-- What follows an exponent is part of the text. -/
lemma exponent_subset (s : List Char) : (exponent s).2 ⊆ s := by
  have hvalue : ∀ (c : Char) (r : List Char), ((exponentValue? r).getD (0, c :: r)).2 ⊆ c :: r := by
    intro c r
    cases h : exponentValue? r with
    | none => exact List.Subset.refl _
    | some found => exact List.subset_cons_of_subset _ (exponentValue?_subset h)
  unfold exponent
  split
  · exact hvalue _ _
  · exact hvalue _ _
  · exact List.Subset.refl _

/-- What follows a number is part of the text, and the number is negative only if the text has a
minus sign. -/
lemma number?_subset {s r : List Char} {d : Decimal} (h : number? s = some (d, r)) :
    r ⊆ s ∧ ('-' ∉ s → d.negative = false) := by
  unfold number? at h
  dsimp only at h
  split at h
  · cases h
  · cases h
    refine ⟨?_, (sign_subset s).2⟩
    refine List.Subset.trans (exponent_subset _) (List.Subset.trans (places_subset _) ?_)
    exact List.Subset.trans (List.dropWhile_sublist _).subset (sign_subset s).1

/-! ### Reading without a minus sign -/

/-- A component is not zero with a minus sign. -/
lemma isNegativeZero_of_plain {x : Float32} (h : PlainSingle x) :
    isNegativeZero (some x) = false := by
  refine decide_eq_false fun heq => ?_
  exact h.ne_negativeZero (Option.some.inj heq)

/-- A number without a sign stays without one on any scale and within any bounds. -/
lemma plain_scaled {d : Decimal} (hd : d.negative = false) {scale : Float}
    (hscale : PlainDouble scale) : PlainSingle (narrow (clamp (d.toDouble * scale))) := by
  obtain ⟨num, den, hdouble⟩ := d.exists_double
  have hproduct : PlainDouble (d.toDouble * scale) := by
    rw [hdouble, hd]
    exact (plainDouble_double num den).mul hscale
  refine PlainDouble.narrow ?_
  unfold clamp
  split
  · exact (show PlainDouble 0 by unfold PlainDouble; decide)
  · split
    · exact (show PlainDouble 1 by unfold PlainDouble; decide)
    · exact hproduct

/-- A component that is read from a text without a minus sign is no negative zero, and what
follows it is part of the text. -/
lemma component_subset {scale : Float} (hscale : PlainDouble scale) {s r : List Char}
    {x : Component} (h : component scale s = .ok (x, r)) :
    r ⊆ s ∧ ('-' ∉ s → isNegativeZero x = false) := by
  have hpercent : PlainDouble 0.01 := by unfold PlainDouble; decide
  have hfront : behindComments (skipSpace s) ⊆ s :=
    List.Subset.trans (behindComments_subset _) (skipSpace_subset s)
  unfold component at h
  dsimp only at h
  split at h
  · rename_i d r' hnumber
    cases h
    obtain ⟨hrest, hsign⟩ := number?_subset hnumber
    refine ⟨List.Subset.trans (List.subset_cons_self _ _) (List.Subset.trans hrest hfront), ?_⟩
    exact fun hs => isNegativeZero_of_plain (plain_scaled (hsign (mt (@hfront _) hs)) hpercent)
  · rename_i d r' hpercentage hnumber
    obtain ⟨hrest, hsign⟩ := number?_subset hnumber
    split at h
    · cases h
    · cases h
      refine ⟨List.Subset.trans hrest hfront, fun hs => ?_⟩
      exact isNegativeZero_of_plain (plain_scaled (hsign (mt (@hfront _) hs)) hscale)
  · split at h
    · rename_i name r' hname
      split at h
      · cases h
        exact ⟨List.Subset.trans (identifier?_subset hname) hfront, fun _ => rfl⟩
      · cases h
    · cases h

/-- What follows a parenthesis is part of the text. -/
lemma openArguments_subset {s r : List Char} (h : openArguments s = .ok r) : r ⊆ s := by
  unfold openArguments at h
  split at h
  · cases h
    exact List.subset_cons_self _ _
  · cases h

/-- What follows a separator is part of the text. -/
lemma separator_subset {commas : Bool} {s r : List Char} (h : separator commas s = .ok r) :
    r ⊆ s := by
  have hrest := takeChar_subset ',' s
  unfold separator at h
  split at h
  · split at h
    · rename_i r' htake
      cases h
      rw [htake] at hrest
      exact hrest
    · cases h
  · cases h
    exact List.Subset.refl _

/-- An opacity that is read from a text without a minus sign is no negative zero. -/
lemma opacity_not_negative {commas : Bool} {s r : List Char} {x : Component}
    (h : opacity commas s = .ok (x, r)) (hs : '-' ∉ s) : isNegativeZero x = false := by
  have hrest := takeChar_subset (if commas then ',' else '/') s
  unfold opacity at h
  split at h
  · rename_i r' htake
    rw [htake] at hrest
    exact (component_subset (by unfold PlainDouble; decide) h).2 (mt (@hrest _) hs)
  · cases h
    decide

/-- The first of two readers succeeds if both do. -/
lemma exists_of_bind_eq_ok {α β : Type} {x : Except Reason α} {f : α → Except Reason β} {b : β}
    (h : x >>= f = .ok b) : ∃ a, x = .ok a ∧ f a = .ok b := by
  cases x with
  | error reason => cases h
  | ok a => exact ⟨a, rfl, h⟩

/-- A colour that is read from arguments without a minus sign has no negative zero. -/
lemma arguments_not_negative {s r : List Char} {c : Color} (h : arguments s = .ok (c, r))
    (hs : '-' ∉ s) : true ∉ c.negativeZeros := by
  have hchannel : PlainDouble channelScale := by unfold PlainDouble; decide
  have hwithout : ∀ {t t' : List Char}, '-' ∉ t → t' ⊆ t → '-' ∉ t' := fun ht hsub => mt (@hsub _) ht
  unfold arguments at h
  obtain ⟨s₁, hopen, h⟩ := exists_of_bind_eq_ok h
  obtain ⟨⟨red, s₂⟩, hred, h⟩ := exists_of_bind_eq_ok h
  obtain ⟨⟨green, s₃⟩, hgreen, h⟩ := exists_of_bind_eq_ok h
  obtain ⟨s₄, hseparator, h⟩ := exists_of_bind_eq_ok h
  obtain ⟨⟨blue, s₅⟩, hblue, h⟩ := exists_of_bind_eq_ok h
  obtain ⟨⟨alpha, s₆⟩, hopacity, h⟩ := exists_of_bind_eq_ok h
  obtain ⟨s₇, -, h⟩ := exists_of_bind_eq_ok h
  cases h
  -- What each reader leaves is part of what it was given, so no reader meets a minus sign.
  have h₁ := hwithout hs (openArguments_subset hopen)
  obtain ⟨hsub, hnotRed⟩ := component_subset hchannel hred
  have h₂ := hwithout (hwithout (hwithout h₁ hsub) (skipSpace_subset _)) (takeChar_subset ',' _)
  obtain ⟨hsub, hnotGreen⟩ := component_subset hchannel hgreen
  have h₃ := hwithout (hwithout (hwithout h₂ hsub) (skipSpace_subset _))
    (separator_subset hseparator)
  obtain ⟨hsub, hnotBlue⟩ := component_subset hchannel hblue
  have h₄ := hwithout (hwithout h₃ hsub) (skipSpace_subset _)
  simp [negativeZeros, hnotRed h₁, hnotGreen h₂, hnotBlue h₃, opacity_not_negative hopacity h₄]

/-- A component of a byte is no negative zero. -/
lemma byteComponent_not_negative (high low : Nat) :
    isNegativeZero (byteComponent high low) = false := by
  refine isNegativeZero_of_plain (PlainSingle.mul ?_ (plainSingle_single 1 255))
  unfold singleOfInt
  rw [decide_eq_false (by omega)]
  exact plainSingle_single _ _

/-- A colour that is read from digits has no negative zero. -/
lemma ofHex_not_negative {digits : List Nat} {c : Color} (h : ofHex digits = some c) :
    true ∉ c.negativeZeros := by
  unfold ofHex at h
  split at h
  · cases h
    simp [negativeZeros, byteComponent_not_negative]
  · cases h
    simp [negativeZeros, byteComponent_not_negative]
  · cases h
    simp [negativeZeros, byteComponent_not_negative]
  · cases h
    simp [negativeZeros, byteComponent_not_negative]
  · cases h

/-- A colour in front of a text without a minus sign has no negative zero. -/
lemma front_not_negative {s r : List Char} {c : Color} (h : front s = .ok (c, r)) (hs : '-' ∉ s) :
    true ∉ c.negativeZeros := by
  unfold front at h
  split at h
  · dsimp only at h
    split at h
    · rename_i color hhex
      cases h
      exact ofHex_not_negative hhex
    · cases h
  · split at h
    · cases h
    · rename_i name rest hname
      dsimp only at h
      generalize String.ofList (if name.length ≤ foldedLength then name.map Char.toLower else name) =
        word at h
      split at h
      · exact arguments_not_negative h (mt (@identifier?_subset _ _ _ hname _) hs)
      · split at h
        · cases h
          exact List.not_mem_nil
        · cases h

/-- Trimming adds no characters. -/
lemma trim_subset (s : List Char) : Text.trim s ⊆ s := by
  intro c hc
  unfold Text.trim at hc
  have hfront := (List.dropWhile_sublist _).subset (List.mem_reverse.mp hc)
  exact (List.dropWhile_sublist _).subset (List.mem_reverse.mp hfront)

/-- The message is put around the reason and leaves the colour as it is. -/
lemma parse_eq_ok_iff {s : String} {c : Color} : parse s = .ok c ↔ read s = .ok c := by
  have hread : format.read s = (read s).mapError Reason.message := rfl
  rw [parse, ColorFormat.parse, hread]
  cases read s with
  | ok color => simp only [Except.mapError, Except.ok.injEq]
  | error reason => simp only [Except.mapError, reduceCtorEq]

/-- A colour that is read from a text without a minus sign has no negative zero. -/
lemma parse_not_negative {s : String} {c : Color} (h : parse s = .ok c) (hs : '-' ∉ s.toList) :
    true ∉ c.negativeZeros := by
  have hfront : front (Text.trim s.toList) = .ok (c, []) := by
    rw [parse_eq_ok_iff, read] at h
    cases hread : front (Text.trim s.toList) with
    | error reason =>
      rw [hread] at h
      cases h
    | ok found =>
      obtain ⟨color, rest⟩ := found
      rw [hread] at h
      cases rest with
      | nil =>
        cases h
        rfl
      | cons d rest => cases h
  exact front_not_negative hfront (mt (@trim_subset _ _) hs)

/-- Equal colours without negative zeros have them in common. -/
lemma negativeZeros_eq {c c' : Color} (h : (c == c') = true) (hc : true ∉ c.negativeZeros)
    (hc' : true ∉ c'.negativeZeros) : c.negativeZeros = c'.negativeZeros := by
  cases c with
  | named name =>
    cases c' with
    | named name' => rfl
    | rgb r g b a => cases h
  | rgb r g b a =>
    cases c' with
    | named name => cases h
    | rgb r' g' b' a' =>
      simp only [negativeZeros, List.mem_cons, List.not_mem_nil, or_false, not_or,
        eq_comm (a := true), Bool.not_eq_true] at hc hc'
      simp only [negativeZeros, hc, hc']

/-! ### Equality and texts -/

/-- Colours are filed under their texts as they are compared, but for the sign of a zero.  Two equal
colours are written alike exactly if the same components of both are negative zeros, and a set that
is filled with colours keeps no two equal ones exactly if this holds for all of them that are equal.
It does hold for colours that are read from texts without a minus sign. -/
theorem equal_colors_filed_together (colors : List Color) :
    (∀ c ∈ colors, ∀ c' ∈ colors, (c == c') = true →
      (c.text = c'.text ↔ c.negativeZeros = c'.negativeZeros)) ∧
    (((filed colors).Pairwise fun c c' => (c == c') = false) ↔
      ∀ c ∈ colors, ∀ c' ∈ colors, (c == c') = true → c.negativeZeros = c'.negativeZeros) ∧
    ∀ texts : List String, texts.map parse = colors.map .ok → (∀ s ∈ texts, '-' ∉ s.toList) →
      (∀ c ∈ colors, ∀ c' ∈ colors, (c == c') = true → c.text = c'.text) ∧
      (filed colors).Pairwise fun c c' => (c == c') = false := by
  refine ⟨fun c _ c' _ hsame => text_eq_iff hsame, pairwise_filed_iff colors, ?_⟩
  intro texts hread hplain
  have hnone : ∀ c ∈ colors, true ∉ c.negativeZeros := by
    intro c hc
    obtain ⟨s, hs, hparse⟩ : ∃ s ∈ texts, parse s = .ok c := by
      rw [← List.mem_map, hread]
      exact List.mem_map_of_mem hc
    exact parse_not_negative hparse (hplain s hs)
  have hcommon : ∀ c ∈ colors, ∀ c' ∈ colors, (c == c') = true →
      c.negativeZeros = c'.negativeZeros :=
    fun c hc c' hc' hsame => negativeZeros_eq hsame (hnone c hc) (hnone c' hc')
  refine ⟨fun c hc c' hc' hsame => ?_, (pairwise_filed_iff colors).mpr hcommon⟩
  exact (text_eq_iff hsame).mpr (hcommon c hc c' hc' hsame)

/-- A number without a percent sign is read as a component on its scale. -/
lemma component_of_number {s r : List Char} {d : Decimal} {x : Float32}
    (hstart : behindComments (skipSpace s) = s) (hnumber : number? s = some (d, r))
    (hpercent : r.head? ≠ some '%') (hname : identifier? r = none)
    (hvalue : narrow (clamp (d.toDouble * channelScale)) = x) :
    component channelScale s = .ok (some x, r) := by
  rw [component, hstart, hnumber, ← hvalue]
  split
  · rename_i d' r' heq
    cases heq
    exact absurd rfl hpercent
  · rename_i d' r' _ heq
    cases heq
    rw [hname]
  · rename_i heq
    cases heq

/-- The colour of a first component in front of two zeros. -/
lemma arguments_zeros {s : List Char} {x : Float32}
    (h : component channelScale s = .ok (some x, ",0,0)".toList)) :
    arguments ('(' :: s) = .ok (.rgb (some x) (some 0) (some 0) (some 1), []) := by
  have hred : takeChar ',' (skipSpace ",0,0)".toList) = (true, "0,0)".toList) := by cbv
  have hgreen : component channelScale "0,0)".toList = .ok (some 0, ",0)".toList) :=
    component_of_number (d := ⟨false, 0, 0⟩) (by cbv) (by decide) (by decide) (by decide)
      (by decide)
  have hseparator : takeChar ',' (skipSpace ",0)".toList) = (true, "0)".toList) := by cbv
  have hblue : component channelScale "0)".toList = .ok (some 0, ")".toList) :=
    component_of_number (d := ⟨false, 0, 0⟩) (by cbv) (by decide) (by decide) (by decide)
      (by decide)
  have hopacity : takeChar ',' (skipSpace ")".toList) = (false, ")".toList) := by cbv
  have hclose : takeChar ')' (skipSpace ")".toList) = (true, []) := by cbv
  simp only [arguments, openArguments, h, hred, hgreen, separator, hseparator, hblue, opacity,
    hopacity, closeArguments, hclose, bind, Except.bind, if_true]

/-- Reading a text with a first component in front of two zeros. -/
lemma parse_zeros {s : String} {p : List Char} {x : Float32}
    (hs : Text.trim s.toList = 'r' :: 'g' :: 'b' :: '(' :: p)
    (h : component channelScale p = .ok (some x, ",0,0)".toList)) :
    parse s = .ok (.rgb (some x) (some 0) (some 0) (some 1)) := by
  have hname : identifier? ('r' :: 'g' :: 'b' :: '(' :: p) = some ("rgb".toList, '(' :: p) := rfl
  have hfront : front ('r' :: 'g' :: 'b' :: '(' :: p) =
      .ok (.rgb (some x) (some 0) (some 0) (some 1), []) := by
    rw [← arguments_zeros h, front, hname]
    · rfl
    · simp
  rw [parse_eq_ok_iff, read, hs, hfront]

/-- Reading black by its components. -/
lemma parse_rgb_zero :
    parse "rgb(0,0,0)" = .ok (.rgb (some 0) (some 0) (some 0) (some 1)) :=
  parse_zeros (p := "0,0,0)".toList) (by decide)
    (component_of_number (d := ⟨false, 0, 0⟩) (by cbv) (by decide) (by decide) (by decide)
      (by decide))

/-- Reading black by its hexadecimal digits. -/
lemma parse_hex_zero : parse "#000" = .ok (.rgb (some 0) (some 0) (some 0) (some 1)) := by
  have htrim : Text.trim "#000".toList = '#' :: "000".toList := by decide
  have hdigits : hexDigits 8 "000".toList = ([0, 0, 0], []) := by decide
  have hdark : byteComponent 0 0 = some 0 := by decide
  have hfull : byteComponent 15 15 = some 1 := by decide
  simp only [parse_eq_ok_iff, read, htrim, front, hdigits, ofHex, ofHex.ofHex8, hdark, hfull]

/-- Black by its digits and by its components is one colour. -/
theorem equal_colors_filed_together_black :
    ["#000", "rgb(0,0,0)"].map parse =
      [rgb (some 0) (some 0) (some 0) (some 1), rgb (some 0) (some 0) (some 0) (some 1)].map .ok ∧
    (∀ s ∈ ["#000", "rgb(0,0,0)"], '-' ∉ s.toList) ∧
    (rgb (some 0) (some 0) (some 0) (some 1) == rgb (some 0) (some 0) (some 0) (some 1)) = true ∧
    (filed [rgb (some 0) (some 0) (some 0) (some 1),
      rgb (some 0) (some 0) (some 0) (some 1)]).Pairwise fun c c' => (c == c') = false := by
  have hread : ["#000", "rgb(0,0,0)"].map parse =
      [rgb (some 0) (some 0) (some 0) (some 1),
        rgb (some 0) (some 0) (some 0) (some 1)].map .ok := by
    simp only [List.map_cons, List.map_nil, parse_hex_zero, parse_rgb_zero]
  have hplain : ∀ s ∈ ["#000", "rgb(0,0,0)"], '-' ∉ s.toList := by decide
  exact ⟨hread, hplain, by decide, ((equal_colors_filed_together _).2.2 _ hread hplain).2⟩

/-- Zero and zero with a minus sign make equal colours, which are written differently, and a set
keeps both of them. -/
theorem equal_colors_written_apart :
    ∃ c c', parse "rgb(0,0,0)" = .ok c ∧ parse "rgb(-0,0,0)" = .ok c' ∧ (c == c') = true ∧
      c.text = "rgb(0, 0, 0)" ∧ c'.text = "rgb(-0, 0, 0)" ∧ distinct [c, c'] = 2 := by
  refine ⟨_, _, parse_rgb_zero, parse_zeros (p := "-0,0,0)".toList) (x := negativeZero) (by decide)
    ?_, by decide, by decide, by decide, by decide⟩
  exact component_of_number (d := ⟨true, 0, 0⟩) (by cbv) (by decide) (by decide) (by decide)
    (by decide)

end DialogChart.Color
