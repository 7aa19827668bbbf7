import DialogChart.Error
import Mathlib.Data.List.Basic
import Mathlib.Data.List.TakeWhile

/-!
# From a position back to its byte

A position counts the line breaks among the bytes before an index and the bytes since the last of
them.  A span goes the other way: it adds up the bytes of the first lines, where lines are cut out
of the characters of the text.  No byte of another character looks like a line break
(`not_mem_encode`), so both ways see the same lines, and the bytes of the lines before a position
together with its column give back the index (`bytesOfLines_add_column`).

The main statement is `label_points_back`: the span of the position of an index covers the byte
before this index, or the byte at the index at the start of a line, and every span lies within the
text.
-/

namespace DialogChart.Json

/-! ### The bytes of a text -/

/-- The UTF-8 bytes of a text. -/
def encode (s : List Char) : List UInt8 :=
  s.flatMap String.utf8EncodeChar

/-- The bytes of a text begin with those of its first character. -/
@[simp] lemma encode_cons (c : Char) (s : List Char) :
    encode (c :: s) = String.utf8EncodeChar c ++ encode s :=
  List.flatMap_cons

/-- The bytes of an array from an index on are listed behind those that were read. -/
lemma toList_loop (b : ByteArray) (i : Nat) (read : List UInt8) :
    ByteArray.toList.loop b i read = read.reverse ++ b.data.toList.drop i := by
  rw [ByteArray.toList.loop]
  split
  · rename_i hi
    have hnext : b.data.toList.drop i = b.get! i :: b.data.toList.drop (i + 1) := by
      rw [List.drop_eq_getElem_cons (show i < b.data.toList.length from hi)]
      simp [ByteArray.get!, hi]
    rw [toList_loop b (i + 1), List.reverse_cons, List.append_assoc, List.singleton_append, hnext]
  · rename_i hi
    rw [List.drop_of_length_le (Nat.le_of_not_lt hi), List.append_nil]
termination_by b.size - i

/-- The bytes of a string are those of its characters. -/
lemma toList_toUTF8 (s : String) : s.toUTF8.toList = encode s.toList := by
  rw [ByteArray.toList, toList_loop]
  have hbytes : s.toByteArray = s.toList.utf8Encode := by
    rw [← String.toByteArray_ofList, String.ofList_toList]
  simp [hbytes, List.utf8Encode, encode]

/-- The bytes of a string are counted character by character. -/
lemma utf8ByteSize_eq (s : String) : s.utf8ByteSize = (encode s.toList).length := by
  rw [← toList_toUTF8, ByteArray.toList, toList_loop]
  simp

/-- The line break is one byte. -/
lemma encode_lineBreak : String.utf8EncodeChar '\n' = [lineBreak] := by
  decide

/-- No byte of another character is a line break. -/
lemma not_mem_encode {c : Char} (hc : c ≠ '\n') : lineBreak ∉ String.utf8EncodeChar c := by
  have hval : c.val.toNat ≠ 10 := by
    intro h
    exact hc (Char.ext (UInt32.toNat_inj.mp h))
  have hbyte : ∀ k < 256, k ≠ 10 → lineBreak ≠ UInt8.ofNat k := by
    intro k hk hne heq
    have hmod : 10 = k % 2 ^ 8 := congrArg UInt8.toNat heq
    omega
  unfold String.utf8EncodeChar
  dsimp only
  split
  · rw [List.mem_singleton]
    exact hbyte _ (by omega) hval
  · split
    · simp only [List.mem_cons, List.not_mem_nil, or_false, not_or]
      exact ⟨hbyte _ (by omega) (by omega), hbyte _ (by omega) (by omega)⟩
    · split
      · simp only [List.mem_cons, List.not_mem_nil, or_false, not_or]
        exact ⟨hbyte _ (by omega) (by omega), hbyte _ (by omega) (by omega),
          hbyte _ (by omega) (by omega)⟩
      · simp only [List.mem_cons, List.not_mem_nil, or_false, not_or]
        exact ⟨hbyte _ (by omega) (by omega), hbyte _ (by omega) (by omega),
          hbyte _ (by omega) (by omega), hbyte _ (by omega) (by omega)⟩

/-! ### Columns -/

/-- Without a line break the column counts all bytes. -/
lemma column_of_not_mem {l : List UInt8} (h : lineBreak ∉ l) :
    (Position.after l).column = l.length := by
  have hall : l.reverse.takeWhile (· != lineBreak) = l.reverse := by
    rw [List.takeWhile_eq_self_iff]
    intro b hb
    rw [bne_iff_ne]
    rintro rfl
    exact h (List.mem_reverse.mp hb)
  rw [Position.after, hall, List.length_reverse]

/-- The column does not depend on what stands before a line break. -/
lemma column_append_of_mem {l : List UInt8} (h : lineBreak ∈ l) (front : List UInt8) :
    (Position.after (front ++ l)).column = (Position.after l).column := by
  have hstop : (l.reverse.takeWhile (· != lineBreak)).length ≠ l.reverse.length := by
    intro hlen
    have hself := (List.takeWhile_sublist _).eq_of_length hlen
    have hne := List.takeWhile_eq_self_iff.mp hself lineBreak (List.mem_reverse.mpr h)
    simp at hne
  simp only [Position.after, List.reverse_append, List.takeWhile_append, if_neg hstop]

/-- The column counts the bytes since a line break. -/
lemma column_cons_lineBreak (l : List UInt8) :
    (Position.after (lineBreak :: l)).column = (Position.after l).column := by
  by_cases h : lineBreak ∈ l
  · exact column_append_of_mem h [lineBreak]
  · have hall := column_of_not_mem h
    simp only [Position.after] at hall ⊢
    rw [List.reverse_cons, List.takeWhile_append, hall, List.length_reverse, if_pos rfl]
    simp

/-! ### Lines -/

/-- A line break in front of a text is a line of its own. -/
lemma lines_lineBreak (s : List Char) : lines ('\n' :: s) = ['\n'] :: lines s := by
  change prepend '\n' (lines s) = _
  cases lines s <;> rfl

/-- Another character in front of a text belongs to its first line. -/
lemma lines_cons {c : Char} (hc : c ≠ '\n') {s line : List Char} {rest : List (List Char)}
    (h : lines s = line :: rest) : lines (c :: s) = (c :: line) :: rest := by
  change prepend c (lines s) = _
  rw [h, prepend, if_neg hc]

/-- A text with a byte has a line. -/
lemma lines_ne_nil {s : List Char} {b : UInt8} (h : b ∈ encode s) : lines s ≠ [] := by
  cases s with
  | nil => cases h
  | cons c s =>
    change prepend c (lines s) ≠ []
    unfold prepend
    split
    · exact List.cons_ne_nil _ _
    · split <;> exact List.cons_ne_nil _ _

/-- A line break in front adds a line of one byte. -/
lemma bytesOfLines_lineBreak (count : Nat) (s : List Char) :
    bytesOfLines (count + 1) ('\n' :: s) = 1 + bytesOfLines count s := by
  unfold bytesOfLines
  rw [lines_lineBreak]
  rfl

/-- Another character in front makes the first line longer. -/
lemma bytesOfLines_cons {c : Char} (hc : c ≠ '\n') {s : List Char} (hs : lines s ≠ [])
    (count : Nat) :
    bytesOfLines (count + 1) (c :: s) = c.utf8Size + bytesOfLines (count + 1) s := by
  obtain ⟨line, rest, hlines⟩ := List.exists_cons_of_ne_nil hs
  unfold bytesOfLines
  rw [lines_cons hc hlines, hlines, List.take_succ_cons, List.take_succ_cons, List.foldr_cons,
    List.foldr_cons, ← Nat.add_assoc]
  rfl

/-- As long as there is no line break before an index, all bytes before it are in the column. -/
lemma bytesOfLines_add_column_of_not_mem {s : List Char} {i : Nat} (hi : i ≤ (encode s).length)
    (h : lineBreak ∉ (encode s).take i) :
    bytesOfLines (((encode s).take i).count lineBreak) s +
      (Position.ofIndex (encode s) i).column = i := by
  rw [List.count_eq_zero.mpr h, Position.ofIndex, column_of_not_mem h, List.length_take_of_le hi]
  exact Nat.zero_add i

/-- The lines before the position of an index and the column of the position make up the index. -/
lemma bytesOfLines_add_column (s : List Char) {i : Nat} (hi : i ≤ (encode s).length) :
    bytesOfLines (((encode s).take i).count lineBreak) s +
      (Position.ofIndex (encode s) i).column = i := by
  induction s generalizing i with
  | nil => exact bytesOfLines_add_column_of_not_mem hi (by simp [encode])
  | cons c s ih =>
    by_cases hmem : lineBreak ∈ (encode (c :: s)).take i
    swap
    · exact bytesOfLines_add_column_of_not_mem hi hmem
    rw [encode_cons, List.length_append, String.length_utf8EncodeChar] at hi
    by_cases hc : c = '\n'
    · -- The first line is the line break, and the index lies behind it.
      subst hc
      obtain ⟨j, rfl⟩ : ∃ j, i = j + 1 := by
        refine Nat.exists_eq_succ_of_ne_zero ?_
        rintro rfl
        simp at hmem
      have hone : '\n'.utf8Size = 1 := by decide
      have htake : (encode ('\n' :: s)).take (j + 1) = lineBreak :: (encode s).take j := by
        rw [encode_cons, encode_lineBreak]
        rfl
      have hrest := ih (i := j) (by omega)
      rw [Position.ofIndex] at hrest ⊢
      rw [htake, List.count_cons_self, bytesOfLines_lineBreak, column_cons_lineBreak]
      omega
    · -- The first line goes on, so the line break before the index comes from the other characters.
      have hlater : lineBreak ∈ (encode s).take (i - c.utf8Size) := by
        rw [encode_cons, List.take_append, String.length_utf8EncodeChar, List.mem_append] at hmem
        exact hmem.resolve_left fun h => not_mem_encode hc (List.mem_of_mem_take h)
      have hbehind : c.utf8Size ≤ i := by
        by_contra hlt
        rw [Nat.sub_eq_zero_of_le (by omega)] at hlater
        simp at hlater
      have htake : (encode (c :: s)).take i =
          String.utf8EncodeChar c ++ (encode s).take (i - c.utf8Size) := by
        rw [encode_cons, List.take_append, String.length_utf8EncodeChar,
          List.take_of_length_le (by rwa [String.length_utf8EncodeChar])]
      obtain ⟨count, hcount⟩ : ∃ count,
          ((encode s).take (i - c.utf8Size)).count lineBreak = count + 1 :=
        Nat.exists_eq_succ_of_ne_zero (List.count_pos_iff.mpr hlater).ne'
      have hrest := ih (i := i - c.utf8Size) (by omega)
      rw [Position.ofIndex, hcount] at hrest
      rw [Position.ofIndex, htake, List.count_append, List.count_eq_zero.mpr (not_mem_encode hc),
        Nat.zero_add, hcount, column_append_of_mem hlater,
        bytesOfLines_cons hc (lines_ne_nil (List.mem_of_mem_take hlater))]
      omega

/-! ### Spans -/

/-- The span of a position on a line. -/
lemma span?_eq {p : Position} (hp : 1 ≤ p.line) (source : String) :
    p.span? source =
      let offset := min (bytesOfLines (p.line - 1) source.toList + (p.column - 1))
        source.utf8ByteSize
      some ⟨offset, if offset < source.utf8ByteSize then 1 else 0⟩ := by
  unfold Position.span?
  rw [if_neg (Nat.ne_of_gt hp)]

/-- A position on a line has a span, which lies within the source and is empty at its end only. -/
lemma exists_span? {p : Position} (hp : 1 ≤ p.line) (source : String) :
    ∃ span, p.span? source = some span ∧
      span.offset =
        min (bytesOfLines (p.line - 1) source.toList + (p.column - 1)) source.utf8ByteSize ∧
      span.offset + span.length ≤ source.utf8ByteSize ∧
      span.length = if span.offset < source.utf8ByteSize then 1 else 0 := by
  refine ⟨_, span?_eq hp source, rfl, ?_, rfl⟩
  dsimp only
  split <;> omega

/-- The span of the position of an index begins one byte before the index, or at the index where
this is the start of a line. -/
lemma offset_span? {source : String} {i : Nat} (hi : i ≤ source.utf8ByteSize) {span : Span}
    (h : (Position.ofIndex source.toUTF8.toList i).span? source = some span) :
    span.offset =
      if 0 < (Position.ofIndex source.toUTF8.toList i).column then i - 1 else i := by
  obtain ⟨other, hother, hoffset, -⟩ :=
    exists_span? (p := Position.ofIndex source.toUTF8.toList i) (Nat.le_add_right 1 _) source
  rw [h, Option.some.injEq] at hother
  subst hother
  have hlen := utf8ByteSize_eq source
  have hindex := bytesOfLines_add_column source.toList (hlen ▸ hi)
  have hline : (Position.ofIndex (encode source.toList) i).line - 1 =
      ((encode source.toList).take i).count lineBreak := Nat.add_sub_cancel_left 1 _
  rw [toList_toUTF8] at hoffset ⊢
  rw [hoffset, hline]
  split <;> omega

end DialogChart.Json

namespace DialogChart

open Json

/-- The report of a refused document points back at the byte where reading stopped: for the
position of any index of any source its label covers the byte before the index, or the byte at the
index where a line starts there.  The label lies within the source, and it covers one byte unless
it stands at the end.  The span of any other position on a line lies within the source too. -/
theorem label_points_back (source : String) (cause : Cause) :
    (∀ i ≤ source.utf8ByteSize,
      let refusal : Refusal := ⟨cause, .ofIndex source.toUTF8.toList i⟩
      ∃ span, refusal.position.span? source = some span ∧
        (Error.plot refusal source).report.label = some ⟨span, refusal.message⟩ ∧
        span.offset = (if 0 < refusal.position.column then i - 1 else i) ∧
        span.offset + span.length ≤ source.utf8ByteSize ∧
        (span.length = 1 ↔ span.offset < source.utf8ByteSize)) ∧
      ∀ p : Position, 1 ≤ p.line →
        ∃ span, p.span? source = some span ∧
          span.offset + span.length ≤ source.utf8ByteSize := by
  refine ⟨?_, ?_⟩
  · intro i hi refusal
    obtain ⟨span, hspan, -, hwithin, hlength⟩ :=
      exists_span? (p := refusal.position) (Nat.le_add_right 1 _) source
    refine ⟨span, hspan, ?_, offset_span? hi hspan, hwithin, ?_⟩
    · change (refusal.position.span? source).map _ = _
      rw [hspan]
      rfl
    · rw [hlength]
      simp
  · intro p hp
    obtain ⟨span, hspan, -, hwithin, -⟩ := exists_span? hp source
    exact ⟨span, hspan, hwithin⟩

/-- In a source with an empty second line between characters of two bytes, the label for the start
of the empty line covers its line break, and the label for the end covers the last byte. -/
theorem label_points_back_empty_line :
    let source := "é\n\né"
    (3 ≤ source.utf8ByteSize ∧ Position.ofIndex source.toUTF8.toList 3 = ⟨2, 0⟩ ∧
      ∃ span, (Position.mk 2 0).span? source = some span ∧ span.offset = 3 ∧ span.length = 1) ∧
    (6 ≤ source.utf8ByteSize ∧ Position.ofIndex source.toUTF8.toList 6 = ⟨3, 2⟩ ∧
      ∃ span, (Position.mk 3 2).span? source = some span ∧ span.offset = 5 ∧ span.length = 1) ∧
    1 ≤ (Position.mk 9 9).line ∧
      ∃ span, (Position.mk 9 9).span? source = some span ∧ span.offset + span.length ≤ 6 := by
  intro source
  have hsize : source.utf8ByteSize = 6 := by decide
  have hbytes : source.toUTF8.toList = [195, 169, 10, 10, 195, 169] := by
    rw [toList_toUTF8]
    simp only [source]
    decide
  have hstart : Position.ofIndex source.toUTF8.toList 3 = ⟨2, 0⟩ := by
    rw [hbytes]
    decide
  have hend : Position.ofIndex source.toUTF8.toList 6 = ⟨3, 2⟩ := by
    rw [hbytes]
    decide
  obtain ⟨hindex, hany⟩ := label_points_back source .expectedValue
  obtain ⟨span, hspan, -, hoffset, -, hlength⟩ := hindex 3 (by omega)
  obtain ⟨last, hlast, -, hoffset', -, hlength'⟩ := hindex 6 (by omega)
  dsimp only at hspan hoffset hlast hoffset'
  rw [hstart] at hspan hoffset
  rw [hend] at hlast hoffset'
  refine ⟨⟨by omega, hstart, span, hspan, hoffset, hlength.mpr ?_⟩,
    ⟨by omega, hend, last, hlast, hoffset', hlength'.mpr ?_⟩, by decide, ?_⟩
  · rw [hoffset, hsize]
    decide
  · rw [hoffset', hsize]
    decide
  · rw [← hsize]
    exact hany ⟨9, 9⟩ (by decide)

end DialogChart
