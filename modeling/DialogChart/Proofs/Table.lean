import DialogChart.Table
import Mathlib.Data.List.Nodup

/-!
# Tables as lists of entries

A table finds under a name the record that stands beside it (`get?_eq_some_iff`), and a table
that is written from entries with distinct names holds exactly these entries, in their order
(`entries_ofList`).
-/

namespace DialogChart

namespace Table

variable {α : Type}

/-- In a list with distinct names an entry is found under its name. -/
lemma lookup_eq_some_iff {entries : List (String × α)} (h : (entries.map Prod.fst).Nodup)
    {name : String} {a : α} : entries.lookup name = some a ↔ (name, a) ∈ entries := by
  induction entries with
  | nil => simp
  | cons entry rest ih =>
    obtain ⟨first, b⟩ := entry
    rw [List.map_cons, List.nodup_cons] at h
    rw [lookup_entry, List.mem_cons]
    by_cases hn : name = first
    · subst hn
      have hrest : (name, a) ∉ rest := fun hm =>
        h.1 (List.mem_map.mpr ⟨(name, a), hm, rfl⟩)
      simp [hrest, eq_comm]
    · rw [if_neg hn, ih h.2]
      simp [hn]

/-- A table finds a record under a name exactly if it has this entry. -/
lemma get?_eq_some_iff {t : Table α} {name : String} {a : α} :
    t.get? name = some a ↔ (name, a) ∈ t.entries :=
  lookup_eq_some_iff t.nodup

/-- A name under which a record is found is a name of the table. -/
lemma mem_names_of_get? {t : Table α} {name : String} {a : α} (h : t.get? name = some a) :
    name ∈ t.names :=
  List.mem_map.mpr ⟨(name, a), get?_eq_some_iff.mp h, rfl⟩

/-- Nothing is found under a name exactly if it is no name of the table. -/
lemma get?_eq_none_iff {t : Table α} {name : String} : t.get? name = none ↔ name ∉ t.names := by
  constructor
  · intro h hmem
    obtain ⟨entry, hentry, rfl⟩ := List.mem_map.mp hmem
    rw [get?_eq_some_iff.mpr hentry] at h
    exact Option.some_ne_none _ h
  · intro h
    by_contra hfound
    obtain ⟨a, ha⟩ := Option.ne_none_iff_exists'.mp hfound
    exact h (mem_names_of_get? ha)

/-- A table without entries is the empty table. -/
lemma eq_empty_of_isEmpty {t : Table α} (h : t.isEmpty = true) : t = ∅ :=
  Table.ext (List.isEmpty_iff.mp h)

/-- A record under a new name comes last. -/
lemma put_of_not_mem {name : String} (a : α) {entries : List (String × α)}
    (h : name ∉ entries.map Prod.fst) : put name a entries = entries ++ [(name, a)] := by
  induction entries with
  | nil => rfl
  | cons entry rest ih =>
    obtain ⟨first, b⟩ := entry
    rw [List.map_cons, List.mem_cons, not_or] at h
    rw [put, if_neg (Ne.symm h.1), ih h.2, List.cons_append]

/-- A record under a new name adds to the size of a table. -/
lemma size_insert_of_not_mem {t : Table α} {name : String} (a : α) (h : name ∉ t.names) :
    (t.insert name a).size = t.size + 1 := by
  have hput : (t.insert name a).entries = t.entries ++ [(name, a)] := put_of_not_mem a h
  unfold size
  rw [hput, List.length_append, List.length_singleton]

/-- The entries after a write are the new one and some of those that were there. -/
lemma mem_put {name : String} {a : α} {entries : List (String × α)} {entry : String × α}
    (h : entry ∈ put name a entries) : entry = (name, a) ∨ entry ∈ entries := by
  induction entries with
  | nil => exact .inl (List.mem_singleton.mp h)
  | cons first rest ih =>
    rw [put] at h
    split at h
    · exact (List.mem_cons.mp h).imp_right (List.mem_cons_of_mem first)
    · rcases List.mem_cons.mp h with rfl | hmem
      · exact .inr List.mem_cons_self
      · exact (ih hmem).imp_right (List.mem_cons_of_mem first)

/-- The entries of a table after some writes were there before or were written. -/
lemma mem_foldl_insert {entries : List (String × α)} {entry : String × α} {t : Table α}
    (h : entry ∈ (entries.foldl (fun t e => t.insert e.1 e.2) t).entries) :
    entry ∈ t.entries ∨ entry ∈ entries := by
  induction entries generalizing t with
  | nil => exact .inl h
  | cons e rest ih =>
    rw [List.mem_cons]
    rcases ih h with hmem | hmem
    · exact (mem_put hmem).symm.imp_right .inl
    · exact .inr (.inr hmem)

/-- The entries of a table are among those it was written from. -/
lemma mem_ofList {entries : List (String × α)} {entry : String × α}
    (h : entry ∈ (ofList entries).entries) : entry ∈ entries :=
  (mem_foldl_insert h).resolve_left List.not_mem_nil

/-- Writing entries under new and distinct names puts them behind those that are there. -/
lemma entries_foldl_insert (entries : List (String × α)) (t : Table α)
    (h : ((t.entries ++ entries).map Prod.fst).Nodup) :
    (entries.foldl (fun t e => t.insert e.1 e.2) t).entries = t.entries ++ entries := by
  induction entries generalizing t with
  | nil => simp
  | cons e rest ih =>
    have hnew : e.1 ∉ t.entries.map Prod.fst := by
      intro hm
      rw [List.map_append, List.nodup_append] at h
      exact h.2.2 _ hm _ (by simp) rfl
    have hput : (t.insert e.1 e.2).entries = t.entries ++ [e] := put_of_not_mem e.2 hnew
    have hassoc : (t.insert e.1 e.2).entries ++ rest = t.entries ++ e :: rest := by
      rw [hput, List.append_assoc, List.singleton_append]
    rw [List.foldl_cons, ih _ (hassoc.symm ▸ h), hassoc]

/-- A table written from entries with distinct names holds these entries. -/
lemma entries_ofList {entries : List (String × α)} (h : (entries.map Prod.fst).Nodup) :
    (ofList entries).entries = entries :=
  entries_foldl_insert entries empty h

/-! ### Changing the records -/

variable {β : Type} (f : α → β)

/-- Apply a function to every record. -/
def map (t : Table α) : Table β where
  entries := t.entries.map fun e => (e.1, f e.2)
  nodup := by
    rw [List.map_map]
    exact t.nodup

/-- A record may be changed before or after it is written. -/
lemma map_put (name : String) (a : α) (entries : List (String × α)) :
    (put name a entries).map (fun e => (e.1, f e.2)) =
      put name (f a) (entries.map fun e => (e.1, f e.2)) := by
  induction entries with
  | nil => rfl
  | cons entry rest ih =>
    rw [put, List.map_cons, put]
    split
    · rfl
    · rw [List.map_cons, ih]

/-- The entries may be changed before or after they are written. -/
lemma map_ofList (entries : List (String × α)) :
    (ofList entries).map f = ofList (entries.map fun e => (e.1, f e.2)) := by
  have hfold : ∀ t : Table α, (entries.foldl (fun t e => t.insert e.1 e.2) t).map f =
      (entries.map fun e => (e.1, f e.2)).foldl (fun t e => t.insert e.1 e.2) (t.map f) := by
    induction entries with
    | nil => exact fun t => rfl
    | cons e rest ih =>
      intro t
      have hinsert : (t.insert e.1 e.2).map f = (t.map f).insert e.1 (f e.2) :=
        Table.ext (map_put f e.1 e.2 t.entries)
      rw [List.foldl_cons, ih, hinsert, List.map_cons, List.foldl_cons]
  exact hfold empty

/-- What a name finds after the records were changed. -/
lemma get?_map (t : Table α) (name : String) : (t.map f).get? name = (t.get? name).map f := by
  ext b
  rw [get?_eq_some_iff, Option.map_eq_some_iff, map, List.mem_map]
  constructor
  · rintro ⟨⟨other, a⟩, hmem, heq⟩
    obtain ⟨rfl, rfl⟩ := Prod.mk.inj heq
    exact ⟨a, get?_eq_some_iff.mpr hmem, rfl⟩
  · rintro ⟨a, ha, rfl⟩
    exact ⟨(name, a), get?_eq_some_iff.mp ha, rfl⟩

end Table

end DialogChart
