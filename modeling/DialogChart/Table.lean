/-!
# Tables in document order

A table maps names to records and remembers the order in which the names first appeared.
Writing to a name that is already there replaces its record and keeps its place, so a table
never holds a name twice.
-/

namespace DialogChart

namespace Table

variable {κ α : Type} [DecidableEq κ]

/-- The entries after a write: a known name keeps its place, a new one comes last. -/
def put (name : κ) (a : α) : List (κ × α) → List (κ × α)
  | [] => [(name, a)]
  | (other, b) :: rest =>
    if other = name then (name, a) :: rest else (other, b) :: put name a rest

/-- The names after a write. -/
theorem names_put (name : κ) (a : α) (entries : List (κ × α)) :
    (put name a entries).map Prod.fst =
      if name ∈ entries.map Prod.fst then entries.map Prod.fst
      else entries.map Prod.fst ++ [name] := by
  induction entries with
  | nil => simp [put]
  | cons entry rest ih =>
    obtain ⟨other, b⟩ := entry
    by_cases h : other = name
    · simp [put, h]
    · have h' : name ≠ other := fun e => h e.symm
      by_cases hm : name ∈ rest.map Prod.fst <;> simp_all [put]

/-- A write keeps the names distinct. -/
theorem nodup_put (name : κ) (a : α) {entries : List (κ × α)}
    (h : (entries.map Prod.fst).Nodup) : ((put name a entries).map Prod.fst).Nodup := by
  rw [names_put]
  split
  · exact h
  · rename_i hm
    rw [List.nodup_append]
    refine ⟨h, by simp, ?_⟩
    intro x hx y hy
    rw [List.mem_singleton] at hy
    exact fun e => hm (hy ▸ e ▸ hx)

/-- What a name finds in a list that starts with an entry. -/
theorem lookup_entry (first other : κ) (b : α) (rest : List (κ × α)) :
    ((first, b) :: rest).lookup other = if other = first then some b else rest.lookup other := by
  by_cases h : other = first
  · simp [h]
  · have hb : (other == first) = false := beq_eq_false_iff_ne.mpr h
    rw [List.lookup_cons, hb, if_neg h]

/-- A write is seen under its own name and under no other. -/
theorem lookup_put (name other : κ) (a : α) (entries : List (κ × α)) :
    (put name a entries).lookup other =
      if other = name then some a else entries.lookup other := by
  induction entries with
  | nil => exact lookup_entry name other a []
  | cons entry rest ih =>
    obtain ⟨first, b⟩ := entry
    by_cases hf : first = name
    · subst hf
      by_cases h : other = first <;> simp [put, lookup_entry, h]
    · by_cases h : other = first
      · subst h
        simp [put, hf]
      · simp [put, lookup_entry, hf, h, ih]

end Table

/-- Records under distinct names, in the order in which the names first appeared. -/
structure Table (α : Type) where
  entries : List (String × α)
  nodup : (entries.map Prod.fst).Nodup

namespace Table

variable {α : Type}

/-- The table without entries. -/
def empty : Table α := ⟨[], by simp⟩

instance : EmptyCollection (Table α) := ⟨empty⟩

instance : Inhabited (Table α) := ⟨empty⟩

/-- Two tables with the same entries are equal. -/
@[ext] theorem ext {s t : Table α} (h : s.entries = t.entries) : s = t := by
  cases s
  cases t
  cases h
  rfl

/-- Write a record under a name. -/
def insert (t : Table α) (name : String) (a : α) : Table α :=
  ⟨put name a t.entries, nodup_put name a t.nodup⟩

/-- The table that holds the given entries, written one after the other. -/
def ofList (entries : List (String × α)) : Table α :=
  entries.foldl (fun t e => t.insert e.1 e.2) empty

/-- The record under a name. -/
def get? (t : Table α) (name : String) : Option α :=
  t.entries.lookup name

/-- The record under a name after a write. -/
@[simp] theorem get?_insert (t : Table α) (name other : String) (a : α) :
    (t.insert name a).get? other = if other = name then some a else t.get? other :=
  lookup_put name other a t.entries

/-- The names, in order. -/
def names (t : Table α) : List String :=
  t.entries.map Prod.fst

/-- The records, in order. -/
def records (t : Table α) : List α :=
  t.entries.map Prod.snd

/-- The number of entries. -/
def size (t : Table α) : Nat :=
  t.entries.length

/-- Whether there are no entries. -/
def isEmpty (t : Table α) : Bool :=
  t.entries.isEmpty

end Table

end DialogChart
