import Mathlib.Data.List.Induction
import Mathlib.Data.List.Nodup

/-!
# First occurrences

`firstsBy key items` keeps the items of a list whose key no earlier item has.  Whether an item is
kept is said by its place in the whole list, with no state, so the definition can stand on the far
side of a loop that remembers what it has seen.  The bridge to such a loop is `firstsBy_concat`:
one more item is added at the end exactly if its key is new.
-/

namespace DialogChart

variable {β γ κ : Type} [DecidableEq κ]

/-- The items whose key no earlier item has. -/
def firstsBy (key : β → κ) (items : List β) : List β :=
  (items.zipIdx.filter fun entry =>
    decide (key entry.1 ∉ (items.take entry.2).map key)).map Prod.fst

/-- One more item is kept exactly if its key is new. -/
lemma firstsBy_concat (key : β → κ) (items : List β) (b : β) :
    firstsBy key (items ++ [b]) =
      if key b ∈ items.map key then firstsBy key items else firstsBy key items ++ [b] := by
  -- What stands before an item does not change when the list is continued.
  have hbefore : ∀ entry ∈ items.zipIdx,
      (items ++ [b]).take entry.2 = items.take entry.2 := by
    intro entry hentry
    have hlt : entry.2 < items.length := by
      have h := (List.mem_zipIdx hentry).2.1
      omega
    exact List.take_append_of_le_length (Nat.le_of_lt hlt)
  have hold : (items.zipIdx.filter fun entry =>
        decide (key entry.1 ∉ ((items ++ [b]).take entry.2).map key)) =
      items.zipIdx.filter fun entry => decide (key entry.1 ∉ (items.take entry.2).map key) := by
    refine List.filter_congr fun entry hentry => ?_
    rw [hbefore entry hentry]
  unfold firstsBy
  rw [List.zipIdx_append, List.filter_append, List.map_append, hold]
  by_cases hb : key b ∈ items.map key
  · simp [hb]
  · simp [hb]

/-- The first occurrences are some of the items, in order. -/
lemma firstsBy_sublist (key : β → κ) (items : List β) : (firstsBy key items).Sublist items := by
  have hall : items.zipIdx.map Prod.fst = items := List.zipIdx_map_fst ..
  conv_rhs => rw [← hall]
  exact List.filter_sublist.map Prod.fst

/-- The first occurrences have the keys that all items have. -/
@[simp] lemma mem_keys_firstsBy (key : β → κ) (items : List β) (k : κ) :
    k ∈ (firstsBy key items).map key ↔ k ∈ items.map key := by
  induction items using List.reverseRecOn with
  | nil => rfl
  | append_singleton items b ih =>
    rw [firstsBy_concat, List.map_append, List.mem_append]
    by_cases hb : key b ∈ items.map key
    · rw [if_pos hb, ih, List.map_singleton, List.mem_singleton]
      constructor
      · exact .inl
      · rintro (h | rfl)
        · exact h
        · exact hb
    · rw [if_neg hb, List.map_append, List.mem_append, ih]

/-- No two of the first occurrences have the same key. -/
lemma nodup_keys_firstsBy (key : β → κ) (items : List β) :
    ((firstsBy key items).map key).Nodup := by
  induction items using List.reverseRecOn with
  | nil => exact List.nodup_nil
  | append_singleton items b ih =>
    rw [firstsBy_concat]
    by_cases hb : key b ∈ items.map key
    · rw [if_pos hb]
      exact ih
    · rw [if_neg hb, List.map_append, List.map_singleton, ← List.concat_eq_append]
      refine ih.concat ?_
      rw [mem_keys_firstsBy]
      exact hb

/-- More items do not change what was kept before them. -/
lemma firstsBy_prefix_append (key : β → κ) (items more : List β) :
    firstsBy key items <+: firstsBy key (items ++ more) := by
  induction more using List.reverseRecOn with
  | nil => exact ⟨[], by rw [List.append_nil, List.append_nil]⟩
  | append_singleton more b ih =>
    rw [← List.append_assoc, firstsBy_concat]
    split
    · exact ih
    · exact ih.trans (List.prefix_append _ _)

/-- An item whose key no earlier item has is kept. -/
lemma mem_firstsBy_of_new (key : β → κ) {before : List β} {b : β} (after : List β)
    (hnew : key b ∉ before.map key) : b ∈ firstsBy key (before ++ b :: after) := by
  have hfront := firstsBy_prefix_append key (before ++ [b]) after
  rw [firstsBy_concat, if_neg hnew, List.append_assoc, List.singleton_append] at hfront
  exact hfront.subset (List.mem_append_right _ List.mem_cons_self)

/-- The first item with a key is the one that is kept. -/
lemma find?_firstsBy (key : β → κ) (items : List β) (k : κ) :
    (firstsBy key items).find? (fun b => key b = k) = items.find? fun b => key b = k := by
  induction items using List.reverseRecOn with
  | nil => rfl
  | append_singleton items b ih =>
    rw [firstsBy_concat, List.find?_append]
    by_cases hb : key b ∈ items.map key
    · rw [if_pos hb, ih]
      by_cases hk : key b = k
      · -- An earlier item has the key, so it is found before the new one.
        obtain ⟨a, ha, hkey⟩ := List.mem_map.mp hb
        have hfound : (items.find? fun b => key b = k).isSome = true :=
          List.find?_isSome.mpr ⟨a, ha, by simp [hkey, hk]⟩
        rw [Option.or_of_isSome hfound]
      · simp [hk]
    · rw [if_neg hb, List.find?_append, ih]

/-- First occurrences are the same under a change of items that keeps the keys. -/
lemma map_firstsBy (key : β → κ) (key' : γ → κ) (f : β → γ) (items : List β)
    (h : ∀ b ∈ items, key' (f b) = key b) :
    (firstsBy key items).map f = firstsBy key' (items.map f) := by
  induction items using List.reverseRecOn with
  | nil => rfl
  | append_singleton items b ih =>
    have hitems : ∀ a ∈ items, key' (f a) = key a := fun a ha =>
      h a (List.mem_append_left _ ha)
    have hkeys : (items.map f).map key' = items.map key := by
      rw [List.map_map]
      exact List.map_congr_left hitems
    have hb : key' (f b) = key b := h b (by simp)
    rw [List.map_append, List.map_singleton, firstsBy_concat, firstsBy_concat, hkeys, hb,
      ← ih hitems]
    by_cases hnew : key b ∈ items.map key
    · rw [if_pos hnew, if_pos hnew]
    · rw [if_neg hnew, if_neg hnew, List.map_append, List.map_singleton]

end DialogChart
