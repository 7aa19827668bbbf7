import DialogChart.Proofs.Json.Reading
import DialogChart.Proofs.Table

/-!
# Codecs that read what they write

A codec is faithful if every value is read back from the text that is written for it
(`Codec.Faithful`).  The reader needs a certain number of brackets that may still be opened, and
there may be values whose texts do not tell them apart, so faithfulness is stated for a depth and
for the values of a predicate.  Other texts than the one that is written may be read as the same
value; `Codec.Accepts` says this of a single text.

Lists, tables, choices and other views of faithful codecs are faithful.  For records the fields are
followed one by one: `Field.Takes` says what reading a value for a field does to the record that is
being read, and a document is read as the record to which its members lead from the template
(`Shape.accepts_object`).  A field that is left out has to find its value in the template, which is
how a record is read back from its own document (`Shape.Rebuilds`).
-/

namespace DialogChart.Json

open Scanner (run_bind_of_ok)

variable {numbers : NumberReader}

/-! ### Texts of values -/

/-- The characters of a value, without blanks. -/
def Value.chars (v : Value) : List Char :=
  v.compact.toList

/-- The characters of a member of an object. -/
def memberChars (m : String × Value) : List Char :=
  (stringText m.1).toList ++ ':' :: m.2.chars

/-- The items behind the first one. -/
lemma toList_compactItems (vs : List Value) :
    (compactItems vs).toList = (vs.map Value.chars).flatMap (',' :: ·) ++ [']'] := by
  induction vs with
  | nil => simp [compactItems]
  | cons v vs ih =>
    rw [compactItems, String.toList_append, String.toList_append, ih]
    simp [Value.chars]

/-- The members behind the first one. -/
lemma toList_compactMembers (ms : List (String × Value)) :
    (compactMembers ms).toList = (ms.map memberChars).flatMap (',' :: ·) ++ ['\x7d'] := by
  induction ms with
  | nil => simp [compactMembers]
  | cons m ms ih =>
    obtain ⟨name, v⟩ := m
    simp only [compactMembers, String.toList_append, ih]
    simp [Value.chars, memberChars]

/-- The characters of a text. -/
lemma chars_text (s : String) :
    (Value.text s).chars = '"' :: (s.toList.flatMap escapedChar ++ ['"']) := by
  rw [Value.chars, Value.compact, toList_stringText]

/-- The characters of a list. -/
lemma chars_list (vs : List Value) :
    (Value.list vs).chars =
      Bracket.opening .list :: (separated (vs.map Value.chars) ++ [Bracket.closing .list]) := by
  cases vs with
  | nil => simp [Value.chars, Value.compact, separated, Bracket.opening, Bracket.closing]
  | cons v vs =>
    rw [Value.chars, Value.compact, String.toList_append, String.toList_append,
      toList_compactItems, List.map_cons, separated]
    simp [Value.chars, Bracket.opening, Bracket.closing]

/-- The characters of an object. -/
lemma chars_object (ms : List (String × Value)) :
    (Value.object ms).chars =
      Bracket.opening .object ::
        (separated (ms.map memberChars) ++ [Bracket.closing .object]) := by
  cases ms with
  | nil => simp [Value.chars, Value.compact, separated, Bracket.opening, Bracket.closing]
  | cons m ms =>
    obtain ⟨name, v⟩ := m
    simp only [Value.chars, Value.compact, String.toList_append, toList_compactMembers,
      List.map_cons, separated]
    simp [Value.chars, memberChars, Bracket.opening, Bracket.closing]

/-- The first character of a text is one that starts a value. -/
def Starts (text : List Char) : Prop :=
  ∃ c s, text = c :: s ∧ opensValue c = true

/-- A value between brackets starts with the bracket. -/
lemma starts_opening (b : Bracket) (s : List Char) : Starts (b.opening :: s) := by
  refine ⟨b.opening, s, rfl, ?_⟩
  cases b <;> decide

/-- A text starts with a quote. -/
lemma starts_text (s : String) : Starts (Value.text s).chars :=
  ⟨'"', _, chars_text s, by decide⟩

/-- A member starts with the quote of its name. -/
lemma starts_memberChars (m : String × Value) : Starts (memberChars m) := by
  unfold memberChars
  rw [toList_stringText, List.cons_append]
  exact ⟨'"', _, rfl, by decide⟩

/-! ### Faithful codecs -/

/-- The codec reads every value that satisfies `P` back from its text, if `levels` brackets may
still be opened. -/
structure Codec.Faithful {α : Type} (c : Codec α) (numbers : NumberReader) (levels : Nat)
    (P : α → Prop) : Prop where
  starts : ∀ a, P a → Starts (c.write a).chars
  reads : ∀ a, P a → ∀ depth, levels ≤ depth → (c.read numbers depth).Reads (c.write a).chars a

/-- The codec reads the text of a value as `a`, if `levels` brackets may still be opened. -/
structure Codec.Accepts {α : Type} (c : Codec α) (numbers : NumberReader) (levels : Nat)
    (v : Value) (a : α) : Prop where
  starts : Starts v.chars
  reads : ∀ depth, levels ≤ depth → (c.read numbers depth).Reads v.chars a

/-- A whole document is read as the value of its text. -/
lemma Codec.Accepts.parse_compact {α : Type} {c : Codec α} {levels : Nat} {v : Value} {a : α}
    (h : c.Accepts numbers levels v a) (hlevels : levels ≤ depthLimit) :
    c.parse numbers v.compact = .ok a :=
  Reader.Reads.whole (h.reads depthLimit hlevels)

/-- What a faithful codec writes is read as what it was written for. -/
lemma Codec.Faithful.accepts {α : Type} {c : Codec α} {levels : Nat} {P : α → Prop}
    (hc : c.Faithful numbers levels P) {a : α} (ha : P a) :
    c.Accepts numbers levels (c.write a) a :=
  ⟨hc.starts a ha, hc.reads a ha⟩

/-- A codec is faithful if it accepts what it writes. -/
lemma Codec.Faithful.of_accepts {α : Type} {c : Codec α} {levels : Nat} {P : α → Prop}
    (h : ∀ a, P a → c.Accepts numbers levels (c.write a) a) : c.Faithful numbers levels P :=
  ⟨fun a ha => (h a ha).starts, fun a ha => (h a ha).reads⟩

/-- The value of a whole document is read back. -/
lemma Codec.Faithful.parse_compact {α : Type} {c : Codec α} {levels : Nat} {P : α → Prop}
    (hc : c.Faithful numbers levels P) (hlevels : levels ≤ depthLimit) {a : α} (ha : P a) :
    c.parse numbers (c.compact a) = .ok a :=
  (hc.accepts ha).parse_compact hlevels

/-- More brackets, or fewer values. -/
lemma Codec.Faithful.mono {α : Type} {c : Codec α} {levels more : Nat} {P Q : α → Prop}
    (hc : c.Faithful numbers levels P) (hlevels : levels ≤ more) (hQ : ∀ a, Q a → P a) :
    c.Faithful numbers more Q where
  starts a ha := hc.starts a (hQ a ha)
  reads a ha depth hdepth := hc.reads a (hQ a ha) depth (Nat.le_trans hlevels hdepth)

namespace Codec

variable {α β : Type} {c : Codec α} {levels : Nat} {P : α → Prop}

/-- Texts are read back. -/
lemma text_faithful : text.Faithful numbers 0 fun _ => True where
  starts s _ := starts_text s
  reads s _ depth _ := by
    intro rest _
    simp only [text]
    rw [chars_text, List.cons_append, Reader.run_value (by decide), if_pos rfl,
      Scanner.run_advance_bind]
    exact run_stringBody s rest

/-- Other views of values that are read back. -/
lemma Faithful.map (hc : c.Faithful numbers levels P) {there : α → β} {back : β → α}
    (hthere : ∀ b, there (back b) = b) :
    (c.map there back).Faithful numbers levels fun b => P (back b) where
  starts b hb := hc.starts (back b) hb
  reads b hb depth hdepth := by
    have hread := (hc.reads (back b) hb depth hdepth).map there
    rw [hthere] at hread
    exact hread

/-- Values that are read one by one as the items of a list are collected, last one first. -/
lemma collects_items {item : Reader α} {vs : List Value} {as : List α}
    (h : List.Forall₂ (fun v a => Starts v.chars ∧ item.Reads v.chars a) vs as)
    (found : List α) :
    Bracket.Collects (fun found => do return (← item) :: found) found (vs.map Value.chars)
      (as.reverse ++ found) := by
  induction h generalizing found with
  | nil => exact .nil
  | @cons v a vs as hv _ ih =>
    obtain ⟨⟨c, s, htext, hc⟩, hreads⟩ := hv
    rw [htext] at hreads
    rw [List.map_cons, htext, List.reverse_cons, List.append_assoc, List.singleton_append]
    exact .cons hc (hreads.map (· :: found)) (ih (a :: found))

/-- A reader of the items of a list reads a list. -/
lemma run_items {item : Reader α} {vs : List Value} {as : List α}
    (h : List.Forall₂ (fun v a => Starts v.chars ∧ item.Reads v.chars a) vs as)
    (rest : List Char) :
    (Reader.items item).run (separated (vs.map Value.chars) ++ Bracket.closing .list :: rest) =
      .ok (as, Bracket.closing .list :: rest) := by
  unfold Reader.items
  refine (run_bind_of_ok ((collects_items h []).run_fold rest)).trans ?_
  rw [List.append_nil, List.reverse_reverse, Scanner.run_pure]

/-- A list is read from the texts of its items. -/
lemma Accepts.list {vs : List Value} {as : List α}
    (h : List.Forall₂ (c.Accepts numbers levels) vs as) :
    (Codec.list c).Accepts numbers (levels + 1) (.list vs) as where
  starts := by
    rw [chars_list]
    exact starts_opening .list _
  reads depth hdepth := by
    obtain ⟨depth, rfl⟩ : ∃ d, depth = d + 1 := ⟨depth - 1, by omega⟩
    intro rest _
    simp only [Codec.list]
    rw [chars_list, List.cons_append, List.append_assoc, List.singleton_append,
      Reader.run_value (by decide), if_pos rfl]
    exact Bracket.run_enclose
      (run_items (h.imp fun _ _ hv => ⟨hv.starts, hv.reads depth (by omega)⟩) rest)

/-- Lists of values that are read back. -/
lemma Faithful.list (hc : c.Faithful numbers levels P) :
    (list c).Faithful numbers (levels + 1) fun as => ∀ a ∈ as, P a := by
  refine .of_accepts fun as has => Accepts.list ?_
  rw [List.forall₂_map_left_iff, List.forall₂_same]
  exact fun a ha => hc.accepts (has a ha)

/-- Lists of values that are all read back. -/
lemma Faithful.list_true (hc : c.Faithful numbers levels fun _ => True) :
    (Codec.list c).Faithful numbers (levels + 1) fun _ => True :=
  hc.list.mono (Nat.le_refl _) fun _ _ _ _ => trivial

/-- A member is read into a table. -/
lemma reads_member {member : Reader α} {v : Value} {a : α} (h : member.Reads v.chars a)
    (name : String) (found : Table α) :
    (do
      let name ← Reader.key
      Reader.colon
      return found.insert name (← member) : Reader (Table α)).Reads (memberChars (name, v))
        (found.insert name a) := by
  intro rest hrest
  rw [memberChars, List.append_assoc, List.cons_append, run_bind_of_ok (run_key name _),
    run_bind_of_ok (run_colon _)]
  exact h.map (found.insert name) rest hrest

/-- A reader of the members of an object reads a table back. -/
lemma run_members {member : Reader α} {write : α → Value} (t : Table α)
    (ht : ∀ a ∈ t.records, member.Reads (write a).chars a) (rest : List Char) :
    (Reader.members member).run
      (separated ((t.entries.map fun e => (e.1, write e.2)).map memberChars) ++
        Bracket.closing .object :: rest) = .ok (t, Bracket.closing .object :: rest) := by
  have hlist : t.entries.foldl (fun found e => found.insert e.1 e.2) ∅ = t :=
    Table.ext (Table.entries_ofList t.nodup)
  rw [List.map_map]
  unfold Reader.members
  refine (Bracket.Collects.run_fold (Bracket.collects_map
    (fun found e => found.insert e.1 e.2) t.entries ?_ ∅) rest).trans ?_
  · intro e he
    exact ⟨starts_memberChars _, reads_member (ht e.2 (List.mem_map_of_mem he)) e.1⟩
  · rw [hlist]

/-- Tables of values that are read back. -/
lemma Faithful.table (hc : c.Faithful numbers levels P) :
    (table c).Faithful numbers (levels + 1) fun t => ∀ a ∈ t.records, P a where
  starts t _ := by
    change Starts (Value.object (t.entries.map fun e => (e.1, c.write e.2))).chars
    rw [chars_object]
    exact starts_opening .object _
  reads t ht depth hdepth := by
    obtain ⟨depth, rfl⟩ : ∃ d, depth = d + 1 := ⟨depth - 1, by omega⟩
    intro rest _
    simp only [Codec.table]
    rw [chars_object, List.cons_append, List.append_assoc, List.singleton_append,
      Reader.run_value (by decide), if_pos rfl]
    exact Bracket.run_enclose (run_members t (fun a ha => hc.reads a (ht a ha) depth (by omega))
      rest)

/-- Tables of values that are all read back. -/
lemma Faithful.table_true (hc : c.Faithful numbers levels fun _ => True) :
    (Codec.table c).Faithful numbers (levels + 1) fun _ => True :=
  hc.table.mono (Nat.le_refl _) fun _ _ _ _ => trivial

/-- Choices are read back if their names tell them apart. -/
lemma choice_faithful (choices : List (String × α)) (name : α → String) :
    (choice choices name).Faithful numbers 0 fun a => choices.lookup (name a) = some a where
  starts a _ := starts_text (name a)
  reads a ha depth _ := by
    intro rest _
    simp only [choice]
    rw [chars_text, List.cons_append, Reader.run_value (by decide), if_pos rfl,
      Scanner.run_advance_bind, run_bind_of_ok (run_stringBody (name a) rest)]
    unfold pick
    rw [ha]
    rfl

/-! ### Values that are told by their shape -/

/-- A text is read as a value. -/
lemma any_text (depth : Nat) (s : String) :
    (Reader.any numbers depth).Reads (Value.text s).chars (.text s) := by
  intro rest _
  unfold Reader.any
  rw [chars_text, List.cons_append, Reader.run_value (by decide), if_neg (by decide),
    if_neg (by decide)]
  unfold Reader.leaf
  rw [if_neg (by decide), if_neg (by decide), if_neg (by decide), if_pos rfl,
    Scanner.run_advance_bind, run_bind_of_ok (run_stringBody s rest), Scanner.run_pure]

/-- A list is read as a value if its items are. -/
lemma any_list {depth : Nat} {vs : List Value}
    (hvs : ∀ v ∈ vs, Starts v.chars ∧ (Reader.any numbers depth).Reads v.chars v) :
    (Reader.any numbers (depth + 1)).Reads (Value.list vs).chars (.list vs) := by
  intro rest _
  unfold Reader.any
  rw [chars_list, List.cons_append, List.append_assoc, List.singleton_append,
    Reader.run_value (by decide), if_pos rfl]
  exact run_bind_of_ok (Bracket.run_closed (run_items (List.forall₂_same.mpr hvs) rest))

/-- Values that are told by their shape are read back if their texts are read as the values that
were written, and these have the right meaning. -/
lemma shaped_faithful {kind : String} {write : α → Value} {meaning : Value → Option α}
    (hstarts : ∀ a, P a → Starts (write a).chars)
    (hreads : ∀ a, P a → ∀ depth, levels ≤ depth →
      (Reader.any numbers depth).Reads (write a).chars (write a))
    (hmeaning : ∀ a, P a → meaning (write a) = some a) :
    (shaped kind write meaning).Faithful numbers levels P where
  starts := hstarts
  reads a ha depth hdepth := by
    intro rest hrest
    simp only [shaped]
    rw [run_bind_of_ok (hreads a ha depth hdepth rest hrest), hmeaning a ha]
    rfl

end Codec

/-! ### Records -/

namespace Field

variable {α σ : Type} {c : Codec α} {inner levels : Nat} {P : α → Prop} {r s : σ}

/-- Reading a value for a field leads from the record `s` to the record `s'`. -/
def Takes (f : Field σ) (numbers : NumberReader) (levels : Nat) (v : Value) (s s' : σ) : Prop :=
  ∀ depth, levels ≤ depth → ∃ update, (f.read numbers depth).Reads v.chars update ∧ update s = s'

/-- Reading what a field writes for the record `r` leads from the record `s` to the record `s'`.
If the field writes nothing, there is nothing to do. -/
structure Restores (f : Field σ) (numbers : NumberReader) (levels : Nat) (r s s' : σ) : Prop where
  required : f.required = true → f.write r ≠ none
  omitted : f.write r = none → s' = s
  written : ∀ v, f.write r = some v → f.Takes numbers levels v s s'

/-- A field that is read by a codec takes what the codec accepts. -/
lemma takes_of_accepts {f : Field σ} {set : α → σ → σ} {v : Value} {a : α}
    (hf : f.read = fun numbers depth => do return set (← c.read numbers depth))
    (h : c.Accepts numbers inner v a)
    (hlevels : inner ≤ levels) : f.Takes numbers levels v s (set a s) := by
  intro depth hdepth
  rw [hf]
  exact ⟨set a, (h.reads depth (Nat.le_trans hlevels hdepth)).map set, rfl⟩

/-- A field that is always there is copied. -/
lemma mandatory_restores (hc : c.Faithful numbers inner P) (hlevels : inner ≤ levels)
    {name : String} {get : σ → α} {set : α → σ → σ} (hr : P (get r)) :
    (mandatory name c get set).Restores numbers levels r s (set (get r) s) where
  required _ := Option.some_ne_none _
  omitted h := nomatch h
  written v hv := by
    cases hv
    exact takes_of_accepts rfl (hc.accepts hr) hlevels

/-- A field that is always written is copied. -/
lemma defaulted_restores (hc : c.Faithful numbers inner P) (hlevels : inner ≤ levels)
    {name : String} {get : σ → α} {set : α → σ → σ} (hr : P (get r)) :
    (defaulted name c get set).Restores numbers levels r s (set (get r) s) where
  required h := nomatch h
  omitted h := nomatch h
  written v hv := by
    cases hv
    exact takes_of_accepts rfl (hc.accepts hr) hlevels

/-- A field that is left out when it is blank is copied, if the blank value is there already. -/
lemma sparse_restores (hc : c.Faithful numbers inner P) (hlevels : inner ≤ levels)
    {name : String} {blank : α → Bool} {get : σ → α} {set : α → σ → σ} (hr : P (get r))
    {empty : α} (hblank : ∀ a, blank a = true → a = empty) (hempty : set empty s = s) :
    (sparse name c blank get set).Restores numbers levels r s (set (get r) s) where
  required h := nomatch h
  omitted h := by
    simp only [sparse] at h
    split at h
    · rename_i hr
      rw [hblank _ hr, hempty]
    · cases h
  written v hv := by
    simp only [sparse] at hv
    split at hv
    · cases hv
    · cases hv
      exact takes_of_accepts rfl (hc.accepts hr) hlevels

/-- A field that is left out when it has no value is copied, if there is none already. -/
lemma optional_restores (hc : c.Faithful numbers inner P) (hlevels : inner ≤ levels)
    {name : String} {get : σ → Option α} {set : Option α → σ → σ}
    (hr : ∀ a, get r = some a → P a) (hnone : set none s = s) :
    (optional name c get set).Restores numbers levels r s (set (get r) s) where
  required h := nomatch h
  omitted h := by
    rw [Option.map_eq_none_iff.mp h, hnone]
  written v hv depth hdepth := by
    obtain ⟨a, ha, rfl⟩ := Option.map_eq_some_iff.mp hv
    refine ⟨set (some a), ?_, by rw [ha]⟩
    obtain ⟨first, t, htext, hfirst⟩ := hc.starts a (hr a ha)
    intro rest hrest
    have hread := (hc.reads a (hr a ha) depth (Nat.le_trans hlevels hdepth)).map
      (fun a => set (some a)) rest hrest
    rw [htext, List.cons_append] at hread ⊢
    simp only [optional]
    rw [Reader.run_value (isSpace_of_opensValue hfirst),
      if_neg (ne_of_opensValue hfirst (by decide))]
    exact hread

end Field

namespace Shape

variable {σ : Type} {shape : Shape σ} {levels : Nat} {r : σ}

/-- Reading what some fields write for the record `r` leads from one record to another. -/
inductive Rebuilds (numbers : NumberReader) (levels : Nat) (r : σ) :
    List (Field σ) → σ → σ → Prop where
  | nil {s : σ} : Rebuilds numbers levels r [] s s
  | cons {f : Field σ} {fields : List (Field σ)} {s s' s'' : σ} : f.Restores numbers levels r s s' →
    Rebuilds numbers levels r fields s' s'' → Rebuilds numbers levels r (f :: fields) s s''

/-- Reading values for some fields leads from one record to another. -/
inductive Fills (numbers : NumberReader) (levels : Nat) :
    List (Field σ × Value) → σ → σ → Prop where
  | nil {s : σ} : Fills numbers levels [] s s
  | cons {f : Field σ} {v : Value} {entries : List (Field σ × Value)} {s s' s'' : σ} :
    f.Takes numbers levels v s s' → Fills numbers levels entries s' s'' →
    Fills numbers levels ((f, v) :: entries) s s''

/-- The members for the values of some fields. -/
def membersOf (entries : List (Field σ × Value)) : List (String × Value) :=
  entries.map fun e => (e.1.name, e.2)

/-- The values that some fields write for a record. -/
def written (fields : List (Field σ)) (r : σ) : List (Field σ × Value) :=
  fields.filterMap fun f => (f.write r).map fun v => (f, v)

/-- Only the fields that are written are read. -/
lemma Rebuilds.fills {fields : List (Field σ)} {s s' : σ}
    (h : Rebuilds numbers levels r fields s s') :
    Fills numbers levels (written fields r) s s' := by
  induction h with
  | nil => exact .nil
  | @cons f fields s s₁ s₂ hf _ ih =>
    cases hwrite : f.write r with
    | none =>
      obtain rfl := hf.omitted hwrite
      rw [written, List.filterMap_cons_none (by rw [hwrite]; rfl)]
      exact ih
    | some v =>
      rw [written, List.filterMap_cons_some (by rw [hwrite]; rfl)]
      exact .cons (hf.written v hwrite) ih

/-- The fields that are written are some of the fields, in order. -/
lemma written_sublist (fields : List (Field σ)) (r : σ) :
    ((written fields r).map Prod.fst).Sublist fields := by
  induction fields with
  | nil => exact .slnil
  | cons f fields ih =>
    cases hwrite : f.write r with
    | none =>
      rw [written, List.filterMap_cons_none (by rw [hwrite]; rfl)]
      exact ih.cons f
    | some v =>
      rw [written, List.filterMap_cons_some (by rw [hwrite]; rfl), List.map_cons]
      exact ih.cons_cons f

/-- The required fields are written. -/
lemma Rebuilds.mem_written {fields : List (Field σ)} {s s' : σ}
    (h : Rebuilds numbers levels r fields s s') {f : Field σ} (hf : f ∈ fields)
    (hrequired : f.required = true) : f ∈ (written fields r).map Prod.fst := by
  induction h with
  | nil => cases hf
  | @cons g fields s s₁ s₂ hg _ ih =>
    rcases List.mem_cons.mp hf with rfl | hf
    · obtain ⟨v, hv⟩ := Option.ne_none_iff_exists'.mp (hg.required hrequired)
      rw [written, List.filterMap_cons_some (by rw [hv]; rfl)]
      exact List.mem_cons_self
    · exact ((List.sublist_cons_self g fields).filterMap _ |>.map Prod.fst).subset (ih hf)

/-- A member is read into a record if its field has not been read yet. -/
lemma reads_readMember {f : Field σ} {depth : Nat} {seen : List String} {s : σ} {v : Value}
    {update : σ → σ} (hfind : shape.fields.find? (·.name = f.name) = some f)
    (hseen : f.name ∉ seen) (hread : (f.read numbers depth).Reads v.chars update) :
    (shape.readMember numbers depth (s, seen)).Reads (memberChars (f.name, v))
      (update s, f.name :: seen) := by
  intro rest hrest
  unfold readMember
  rw [memberChars, List.append_assoc, List.cons_append, run_bind_of_ok (run_key f.name _)]
  simp only [hfind, hseen, if_false]
  rw [run_bind_of_ok (run_colon _), run_bind_of_ok (hread rest hrest)]
  rfl

/-- The members of fields that have not been read yet are collected, and so are their names. -/
lemma Fills.collects {entries : List (Field σ × Value)} {s s' : σ} {depth : Nat}
    (h : Fills numbers levels entries s s') (hdepth : levels ≤ depth)
    (hfind : ∀ e ∈ entries, shape.fields.find? (·.name = e.1.name) = some e.1)
    (hnodup : (entries.map fun e => e.1.name).Nodup) {seen : List String}
    (hseen : ∀ e ∈ entries, e.1.name ∉ seen) :
    Bracket.Collects (shape.readMember numbers depth) (s, seen)
      ((membersOf entries).map memberChars)
      (s', (entries.map fun e => e.1.name).reverse ++ seen) := by
  induction h generalizing seen with
  | nil => exact .nil
  | @cons f v entries s s₁ s₂ hf _ ih =>
    rw [List.map_cons, List.nodup_cons] at hnodup
    rw [List.forall_mem_cons] at hfind hseen
    obtain ⟨update, hread, rfl⟩ := hf depth hdepth
    have hunseen : ∀ e ∈ entries, e.1.name ∉ f.name :: seen := by
      intro e he hmem
      rcases List.mem_cons.mp hmem with heq | hmem
      · exact hnodup.1 (heq ▸ List.mem_map_of_mem he)
      · exact hseen.2 e he hmem
    have hrest := ih hfind.2 hnodup.2 hunseen
    obtain ⟨c, t, htext, hc⟩ := starts_memberChars (f.name, v)
    have hmember := reads_readMember (s := s) hfind.1 hseen.1 hread
    rw [htext] at hmember
    rw [membersOf, List.map_cons, List.map_cons, htext, List.map_cons, List.reverse_cons,
      List.append_assoc, List.singleton_append]
    exact .cons hc hmember hrest

/-- With distinct names a field is found under its name. -/
lemma find?_name {fields : List (Field σ)} (hnodup : (fields.map (·.name)).Nodup) {f : Field σ}
    (hf : f ∈ fields) : fields.find? (·.name = f.name) = some f := by
  induction fields with
  | nil => cases hf
  | cons g fields ih =>
    rw [List.map_cons, List.nodup_cons] at hnodup
    rcases List.mem_cons.mp hf with rfl | hf
    · simp
    · have hne : g.name ≠ f.name := fun heq => hnodup.1 (heq ▸ List.mem_map_of_mem hf)
      rw [List.find?_cons_of_neg (by simpa using hne), ih hnodup.2 hf]

/-- An object with values for some of the fields, and for all the required ones, is read as the
record to which these values lead from the template. -/
lemma accepts_object (hnodup : (shape.fields.map (·.name)).Nodup)
    {entries : List (Field σ × Value)} (hsub : (entries.map Prod.fst).Sublist shape.fields)
    (hrequired : ∀ f ∈ shape.fields, f.required = true → f ∈ entries.map Prod.fst) {s : σ}
    (h : Fills numbers levels entries shape.template s) :
    shape.codec.Accepts numbers (levels + 1) (.object (membersOf entries)) s where
  starts := by
    rw [chars_object]
    exact starts_opening .object _
  reads depth hdepth := by
    obtain ⟨depth, rfl⟩ : ∃ d, depth = d + 1 := ⟨depth - 1, by omega⟩
    intro rest _
    have hnames : (entries.map fun e => e.1.name).Nodup := by
      have hsublist := (hsub.map (·.name)).nodup hnodup
      rwa [List.map_map] at hsublist
    have hcollects := h.collects (Nat.le_of_succ_le_succ hdepth)
      (fun e he => find?_name hnodup (hsub.subset (List.mem_map_of_mem he))) hnames
      (fun _ _ => List.not_mem_nil)
    have hmissing : shape.fields.find? (fun f => f.required &&
        f.name ∉ (entries.map fun e => e.1.name).reverse ++ []) = none := by
      rw [List.find?_eq_none]
      intro f hf hmem
      simp only [Bool.and_eq_true, decide_eq_true_eq] at hmem
      obtain ⟨e, he, rfl⟩ := List.mem_map.mp (hrequired f hf hmem.1)
      refine hmem.2 ?_
      rw [List.append_nil, List.mem_reverse]
      exact List.mem_map_of_mem he
    have hmembers : (shape.readMembers numbers depth).run
        (separated ((membersOf entries).map memberChars) ++ Bracket.closing .object :: rest) =
        .ok (s, Bracket.closing .object :: rest) := by
      unfold readMembers
      rw [run_bind_of_ok (hcollects.run_fold rest)]
      simp only [hmissing]
      rfl
    simp only [codec]
    rw [chars_object, List.cons_append, List.append_assoc, List.singleton_append,
      Reader.run_value (by decide), if_neg (by decide), if_pos rfl]
    exact Bracket.run_enclose hmembers

/-- Records are read back if their fields lead from the template to them. -/
theorem faithful {P : σ → Prop} (hnodup : (shape.fields.map (·.name)).Nodup)
    (h : ∀ r, P r → Rebuilds numbers levels r shape.fields shape.template r) :
    shape.codec.Faithful numbers (levels + 1) P := by
  refine .of_accepts fun r hr => ?_
  have hwrite : shape.codec.write r = .object (membersOf (written shape.fields r)) := by
    rw [membersOf, written, List.map_filterMap]
    refine congrArg (fun write => Value.object (shape.fields.filterMap write)) ?_
    funext f
    cases f.write r <;> rfl
  rw [hwrite]
  exact accepts_object hnodup (written_sublist shape.fields r)
    (fun f hf hrequired => (h r hr).mem_written hf hrequired) (h r hr).fills

end Shape

end DialogChart.Json
