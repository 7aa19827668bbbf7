import DialogChart.Json.Codec
import Mathlib.Data.List.Basic

/-!
# Reading what was written

The readers of this development stop exactly where a written value ends, as long as what follows
cannot be taken for a part of the value.  Inside a document a value is followed by a comma, by a
closing bracket or by nothing at all (`Ends`), and `Reader.Reads p text a` says that the reader `p`
takes exactly `text` for the value `a` in front of any of these.

The file treats strings, whose escapes are undone one character at a time, and the items between
brackets, which are read one after the other (`Bracket.Collects`).
-/

namespace DialogChart

namespace Scanner

variable {ε α β : Type}

/-- A scanner that succeeds is followed by the next one. -/
lemma run_bind_of_ok {p : Scanner ε α} {f : α → Scanner ε β} {s r : List Char} {a : α}
    (h : p.run s = .ok (a, r)) : (p >>= f).run s = (f a).run r := by
  change (p.andThen f).run s = (f a).run r
  unfold andThen
  simp only [h]

@[simp] lemma run_pure (a : α) (s : List Char) :
    (pure a : Scanner ε α).run s = .ok (a, s) := rfl

@[simp] lemma run_look (s : List Char) : (look : Scanner ε _).run s = .ok (s.head?, s) := rfl

@[simp] lemma run_advance (s : List Char) : (advance : Scanner ε _).run s = .ok ((), s.tail) := rfl

/-- A scanner behind one that takes the next character. -/
@[simp] lemma run_advance_bind (f : Unit → Scanner ε α) (c : Char) (s : List Char) :
    (advance >>= f).run (c :: s) = (f ()).run s := rfl

/-- A scanner that is chosen by the next character. -/
@[simp] lemma run_look_bind (f : Option Char → Scanner ε α) (s : List Char) :
    (look >>= f).run s = (f s.head?).run s := rfl

/-- The characters in front of the rest are those that were taken. -/
lemma run_taking {p : Scanner ε α} {text rest : List Char} {a : α}
    (h : p.run (text ++ rest) = .ok (a, rest)) :
    p.taking.run (text ++ rest) = .ok ((a, text), rest) := by
  simp only [taking, h, List.length_append, Nat.add_sub_cancel, List.take_left]

/-- The character that is asked for is taken. -/
lemma run_takes_self (c : Char) (s : List Char) :
    (takes c : Scanner ε Bool).run (c :: s) = .ok (true, s) := by
  unfold takes
  simp

/-- Any other character is left. -/
lemma run_takes_of_ne {c : Char} {s : List Char} (h : s.head? ≠ some c) :
    (takes c : Scanner ε Bool).run s = .ok (false, s) := by
  unfold takes
  simp [h]

end Scanner

namespace Json

open Scanner (run_bind_of_ok run_takes_self)

/-! ### Where a value starts and ends -/

/-- What may stand behind a value in a document: nothing, or the end of an item. -/
def Ends (rest : List Char) : Prop :=
  ∀ c, rest.head? = some c → c = ',' ∨ c = ']' ∨ c = '\x7d'

/-- The document may end behind a value. -/
lemma ends_nil : Ends [] := by
  intro c h
  cases h

/-- Another item may follow a value. -/
lemma ends_comma (rest : List Char) : Ends (',' :: rest) := by
  rintro c ⟨⟩
  exact .inl rfl

/-- A bracket may close behind a value. -/
lemma ends_closing (b : Bracket) (rest : List Char) : Ends (b.closing :: rest) := by
  rintro c ⟨⟩
  cases b
  · exact .inr (.inl rfl)
  · exact .inr (.inr rfl)

/-- Whether a character starts a value that is not a literal. -/
def opensValue (c : Char) : Bool :=
  c = '"' || c = '-' || isDigit c || c = Bracket.opening .list || c = Bracket.opening .object

/-- A character that starts a value is not one of those that stand between values. -/
lemma ne_of_opensValue {c d : Char} (h : opensValue c = true) (hd : opensValue d = false) :
    c ≠ d := by
  rintro rfl
  rw [h] at hd
  cases hd

/-- A value does not start with a blank. -/
lemma isSpace_of_opensValue {c : Char} (h : opensValue c = true) : Reader.isSpace c = false := by
  have hc : ∀ d, opensValue d = false → decide (c = d) = false := fun d hd =>
    decide_eq_false (ne_of_opensValue h hd)
  unfold Reader.isSpace
  rw [hc ' ' (by decide), hc '\n' (by decide), hc '\t' (by decide), hc '\r' (by decide)]
  rfl

/-- There are no blanks in front of a character that is none. -/
lemma dropSpace_cons {c : Char} (h : Reader.isSpace c = false) (s : List Char) :
    Reader.dropSpace (c :: s) = c :: s := by
  unfold Reader.dropSpace
  rw [List.dropWhile_cons, h]
  rfl

namespace Reader

variable {α β : Type}

/-- The token in front of a text without leading blanks. -/
lemma run_token_cons {c : Char} (h : isSpace c = false) (s : List Char) :
    token.run (c :: s) = .ok (some c, c :: s) := by
  have hspaces : spaces.run (c :: s) = .ok ((), c :: s) :=
    congrArg (fun r => Except.ok ((), r)) (dropSpace_cons h s)
  unfold token
  rw [run_bind_of_ok hspaces]
  rfl

/-- A value is read by its first character. -/
lemma run_value {c : Char} (h : isSpace c = false) (f : Char → Reader α) (s : List Char) :
    (value f).run (c :: s) = (f c).run (c :: s) := by
  unfold value
  rw [run_bind_of_ok (run_token_cons h s)]

/-- A reader takes a text as a value, whatever follows the value in a document. -/
def Reads (p : Reader α) (text : List Char) (a : α) : Prop :=
  ∀ rest, Ends rest → p.run (text ++ rest) = .ok (a, rest)

/-- What is read may be computed with. -/
lemma Reads.map {p : Reader α} {text : List Char} {a : α} (h : p.Reads text a) (f : α → β) :
    (do return f (← p) : Reader β).Reads text (f a) := by
  intro rest hrest
  rw [run_bind_of_ok (h rest hrest), Scanner.run_pure]

/-- A reader of a value takes a whole document for the value. -/
lemma Reads.whole {p : Reader α} {source : String} {a : α} (h : p.Reads source.toList a) :
    p.whole source = .ok a := by
  have hrun := h [] ends_nil
  rw [List.append_nil] at hrun
  unfold Reader.whole
  simp only [run_bind_of_ok hrun]
  rfl

end Reader

/-! ### Strings -/

/-- A hexadecimal digit that was written is read as its value. -/
lemma hexValue?_digitChar : ∀ n < 16, hexValue? (Nat.digitChar n) = some n := by decide

/-- The four digits that are written for a control character. -/
lemma unit?_control {n : Nat} (h : n < 0x20) :
    unit? '0' '0' (Nat.digitChar (n / 16)) (Nat.digitChar (n % 16)) = some n := by
  have hzero : hexValue? '0' = some 0 := by decide
  unfold unit?
  rw [hzero, hexValue?_digitChar (n / 16) (by omega), hexValue?_digitChar (n % 16) (by omega)]
  simp only [Option.some.injEq]
  omega

/-- A character that needs no escape is read as itself. -/
lemma scanString_plain {taken rest : List Char} {c : Char} (hquote : c ≠ '"')
    (hslash : c ≠ '\\') (hcontrol : ¬ c.toNat < 0x20) :
    scanString taken (c :: rest) = scanString (c :: taken) rest := by
  rw [scanString.eq_def]
  split
  case h_7 heq =>
    cases heq
    exact if_neg hcontrol
  all_goals simp_all

/-- A control character is read from its four digits. -/
lemma scanString_control {taken rest : List Char} {c : Char} (h : c.toNat < 0x20) :
    scanString taken ('\\' :: 'u' :: '0' :: '0' :: Nat.digitChar (c.toNat / 16) ::
      Nat.digitChar (c.toNat % 16) :: rest) = scanString (c :: taken) rest := by
  have htrailing : isTrailing c.toNat = false := by
    unfold isTrailing
    simp only [Bool.and_eq_false_iff, decide_eq_false_iff_not]
    omega
  have hleading : isLeading c.toNat = false := by
    unfold isLeading
    simp only [Bool.and_eq_false_iff, decide_eq_false_iff_not]
    omega
  rw [scanString.eq_def]
  simp only [unit?_control h, htrailing, hleading, Bool.false_eq_true, if_false, Char.ofNat_toNat]

/-- Every character is read from its escape. -/
lemma scanString_escapedChar (taken rest : List Char) (c : Char) :
    scanString taken (escapedChar c ++ rest) = scanString (c :: taken) rest := by
  unfold escapedChar
  split
  case h_8 hquote hslash _ _ _ _ _ =>
    split
    · exact scanString_control ‹_›
    · exact scanString_plain hquote hslash ‹_›
  all_goals
    rw [List.cons_append, List.cons_append, List.nil_append, scanString.eq_def]
    rfl

/-- A text is read from its escapes, up to the quote behind them. -/
lemma scanString_flatMap (taken s rest : List Char) :
    scanString taken (s.flatMap escapedChar ++ '"' :: rest) =
      .ok (String.ofList (taken.reverse ++ s), rest) := by
  induction s generalizing taken with
  | nil =>
    rw [List.flatMap_nil, List.nil_append, List.append_nil, scanString.eq_def]
    rfl
  | cons c s ih =>
    rw [List.flatMap_cons, List.append_assoc, scanString_escapedChar, ih, List.reverse_cons,
      List.append_assoc, List.singleton_append]

/-- The characters of a text between quotes. -/
lemma toList_stringText (s : String) :
    (stringText s).toList = '"' :: (s.toList.flatMap escapedChar ++ ['"']) := by
  unfold stringText
  rw [String.toList_ofList, List.cons_append]

/-- The body of a string is read up to its closing quote. -/
lemma run_stringBody (s : String) (rest : List Char) :
    Reader.stringBody.run (s.toList.flatMap escapedChar ++ ['"'] ++ rest) = .ok (s, rest) := by
  rw [List.append_assoc, List.singleton_append]
  refine (scanString_flatMap [] s.toList rest).trans ?_
  rw [List.reverse_nil, List.nil_append, String.ofList_toList]

/-- The key of a member is read, whatever follows. -/
lemma run_key (s : String) (rest : List Char) :
    Reader.key.run ((stringText s).toList ++ rest) = .ok (s, rest) := by
  rw [toList_stringText, List.cons_append]
  unfold Reader.key
  rw [run_bind_of_ok (run_takes_self '"' _)]
  exact run_stringBody s rest

/-- The colon behind a key is taken. -/
lemma run_colon (rest : List Char) : Reader.colon.run (':' :: rest) = .ok ((), rest) := by
  unfold Reader.colon
  rw [run_bind_of_ok (Reader.run_token_cons (by decide) rest)]
  rfl

/-! ### Items between brackets -/

/-- Texts with commas between them. -/
def separated : List (List Char) → List Char
  | [] => []
  | text :: texts => text ++ texts.flatMap (',' :: ·)

namespace Bracket

variable {α σ : Type} {b : Bracket}

/-- No value starts with a closing bracket. -/
lemma opensValue_closing (b : Bracket) : opensValue b.closing = false := by
  cases b <;> decide

/-- A closing bracket is no blank. -/
lemma isSpace_closing (b : Bracket) : Reader.isSpace b.closing = false := by
  cases b <;> decide

/-- A closing bracket is no comma. -/
lemma closing_ne_comma (b : Bracket) : ',' ≠ b.closing := by
  cases b <;> decide

/-- There is no further item in front of the closing bracket. -/
lemma seek_closing (b : Bracket) (first : Bool) (rest : List Char) :
    b.seek first (b.closing :: rest) = .ok (false, b.closing :: rest) := by
  simp [seek, dropSpace_cons b.isSpace_closing]

/-- The first item follows the opening bracket. -/
lemma seek_first {c : Char} (h : opensValue c = true) (rest : List Char) :
    b.seek true (c :: rest) = .ok (true, c :: rest) := by
  simp [seek, dropSpace_cons (isSpace_of_opensValue h), ne_of_opensValue h b.opensValue_closing]

/-- Any other item follows a comma. -/
lemma seek_comma {c : Char} (h : opensValue c = true) (rest : List Char) :
    b.seek false (',' :: c :: rest) = .ok (true, c :: rest) := by
  simp [seek, dropSpace_cons (show Reader.isSpace ',' = false by decide), b.closing_ne_comma,
    dropSpace_cons (isSpace_of_opensValue h), ne_of_opensValue h b.opensValue_closing]

/-- The items end where no further one follows. -/
lemma foldRest_of_last {step : σ → Reader σ} {state : σ} {s r : List Char}
    (h : b.seek false s = .ok (false, r)) : b.foldRest step state s = .ok (state, r) := by
  rw [foldRest]
  split <;> simp_all

/-- An item that is read is followed by the other ones. -/
lemma foldRest_of_item {step : σ → Reader σ} {state state' : σ} {s r t : List Char}
    (h : b.seek false s = .ok (true, r)) (hr : (step state).run r = .ok (state', t)) :
    b.foldRest step state s = b.foldRest step state' t := by
  rw [foldRest]
  split
  · simp_all
  · simp_all
  · split <;> simp_all

/-- A step that is taken once for each of some texts leads from one state to another. -/
inductive Collects (step : σ → Reader σ) : σ → List (List Char) → σ → Prop where
  | nil {state : σ} : Collects step state [] state
  | cons {state next last : σ} {c : Char} {text : List Char} {texts : List (List Char)} :
    opensValue c = true → (step state).Reads (c :: text) next →
    Collects step next texts last → Collects step state ((c :: text) :: texts) last

/-- Items that are read alike in every state are collected one after the other. -/
lemma collects_map {ι : Type} {step : σ → Reader σ} {text : ι → List Char} (next : σ → ι → σ)
    (items : List ι)
    (hitems : ∀ i ∈ items, (∃ c s, text i = c :: s ∧ opensValue c = true) ∧
      ∀ state, (step state).Reads (text i) (next state i)) (state : σ) :
    Collects step state (items.map text) (items.foldl next state) := by
  induction items generalizing state with
  | nil => exact .nil
  | cons i items ih =>
    obtain ⟨⟨c, s, htext, hc⟩, hreads⟩ := hitems i List.mem_cons_self
    have hrest := ih (fun j hj => hitems j (List.mem_cons_of_mem i hj)) (next state i)
    rw [List.map_cons, htext]
    exact .cons hc (htext ▸ hreads state) hrest

/-- What follows an item inside brackets. -/
lemma ends_items (b : Bracket) (texts : List (List Char)) (rest : List Char) :
    Ends (texts.flatMap (',' :: ·) ++ b.closing :: rest) := by
  cases texts with
  | nil => exact ends_closing b rest
  | cons text texts => exact ends_comma _

/-- The items behind the first one are read up to the closing bracket. -/
lemma Collects.foldRest_eq {step : σ → Reader σ} {state last : σ} {texts : List (List Char)}
    (h : Collects step state texts last) (rest : List Char) :
    b.foldRest step state (texts.flatMap (',' :: ·) ++ b.closing :: rest) =
      .ok (last, b.closing :: rest) := by
  induction h with
  | nil => exact foldRest_of_last (seek_closing b false rest)
  | @cons state next last c text texts hc hread _ ih =>
    have hrun := hread _ (b.ends_items texts rest)
    rw [List.flatMap_cons, List.append_assoc]
    exact (foldRest_of_item (seek_comma hc _) hrun).trans ih

/-- The items are read up to the closing bracket. -/
lemma Collects.run_fold {step : σ → Reader σ} {state last : σ} {texts : List (List Char)}
    (h : Collects step state texts last) (rest : List Char) :
    (b.fold step state).run (separated texts ++ b.closing :: rest) =
      .ok (last, b.closing :: rest) := by
  unfold fold
  cases h with
  | nil =>
    have hmore : (b.more true).run (b.closing :: rest) = .ok (false, b.closing :: rest) :=
      seek_closing b true rest
    rw [separated, List.nil_append, run_bind_of_ok hmore]
    rfl
  | @cons _ next _ c text texts hc hread hrest =>
    have hrun := hread _ (b.ends_items texts rest)
    have hmore : (b.more true).run (c :: text ++ (texts.flatMap (',' :: ·) ++ b.closing :: rest)) =
        .ok (true, c :: text ++ (texts.flatMap (',' :: ·) ++ b.closing :: rest)) :=
      seek_first hc _
    rw [separated, List.append_assoc, run_bind_of_ok hmore, if_pos rfl, run_bind_of_ok hrun]
    exact hrest.foldRest_eq rest

/-- What is read up to the closing bracket is read with it. -/
lemma run_closed {body : Reader α} {s rest : List Char} {a : α}
    (h : body.run s = .ok (a, b.closing :: rest)) : (b.closed body).run s = .ok (a, rest) := by
  have hclose : b.close (b.closing :: rest) = (none, rest) := by
    simp [close, dropSpace_cons b.isSpace_closing]
  simp only [closed, h, hclose]

/-- What is read up to the closing bracket is read between the brackets. -/
lemma run_enclose {body : Nat → Reader α} {depth : Nat} {s rest : List Char} {a : α}
    (h : (body depth).run s = .ok (a, b.closing :: rest)) :
    (b.enclose (depth + 1) body).run (b.opening :: s) = .ok (a, rest) :=
  run_closed h

end Bracket

end Json

end DialogChart
