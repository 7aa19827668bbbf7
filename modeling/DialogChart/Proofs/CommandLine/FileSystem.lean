import DialogChart.CommandLine.FileSystem
import Mathlib.Data.List.Basic

/-!
# What a write changes

`Store.Lawful` says what is expected of a place where files are kept: what was written is read back,
and only paths to the same file see a change.  Which paths lead to the same file is for the place to
say.

File systems are such places (`FileSystem.lawful`).  A write goes to one location and leaves every
other location as it was.  Afterwards every path leads to the same location as before, because only
directories lie on the way and a write never replaces a directory (`locate_set_iff`).

Replacing the content of a file that is there changes nothing about paths, not even the faults of
those that lead nowhere, and only paths that lead to this file read something else
(`locate_set_file`, `read_set_file`).
-/

namespace DialogChart.CommandLine

/-! ### Stores -/

namespace Store

variable {σ : Type}

/-- The only change between two states is that a path holds a content: all paths to the same file
read this content, all others lead somewhere or nowhere as before and read what they read before. -/
structure Replaces (store : Store σ) (same : σ → String → String → Prop) (s : σ) (path : String)
    (content : List UInt8) (after : σ) : Prop where
  same_self : same s path path
  holds_same : ∀ other, same s path other → store.holds after other = true
  read_same : ∀ other, same s path other → store.read after other = .ok content
  holds_other : ∀ other, ¬ same s path other → store.holds after other = store.holds s other
  read_other : ∀ other, ¬ same s path other →
    ∀ found, store.read after other = .ok found ↔ store.read s other = .ok found

/-- A write that succeeds puts the content under its path and changes nothing else.  Here
`same s path other` says that both paths lead to the same file. -/
def Lawful (store : Store σ) (same : σ → String → String → Prop) : Prop :=
  ∀ ⦃s : σ⦄ ⦃path : String⦄ ⦃content : List UInt8⦄ ⦃after : σ⦄,
    store.write s path content = .ok after → store.Replaces same s path content after

end Store

namespace FileSystem

variable {fs : FileSystem} {location other : Location}

/-! ### Locations -/

/-- A location finds what was put there, and what was there before at any other location. -/
lemma lookup_put_location (location other : Location) (entry : Entry)
    (entries : List (Location × Entry)) :
    (Table.put location entry entries).lookup other =
      if other = location then some entry else entries.lookup other := by
  -- Lists of names are compared name by name here, and as a whole in a table.
  have hbeq : (List.instBEq : BEq Location) = instBEqOfDecidableEq := lawful_beq_subsingleton _ _
  rw [hbeq]
  exact Table.lookup_put location other entry entries

/-- What stands at a location after something was put there. -/
lemma get?_set_self (h : location ≠ []) (entry : Entry) :
    (fs.set location entry).get? location = some entry := by
  unfold get? set
  rw [if_neg h, lookup_put_location, if_pos rfl]

/-- What stands at any other location afterwards. -/
lemma get?_set_ne (h : other ≠ location) (entry : Entry) :
    (fs.set location entry).get? other = fs.get? other := by
  unfold get? set
  rw [lookup_put_location, if_neg h]

/-- The root is no file. -/
lemma ne_nil_of_get?_ne (h : fs.get? location ≠ some .directory) : location ≠ [] := by
  rintro rfl
  exact h rfl

/-- A file is put where no directory is, so the directories stay. -/
lemma get?_set_eq_directory (hlocation : fs.get? location ≠ some .directory)
    (content : List UInt8) :
    (fs.set location (.file content)).get? other = some .directory ↔
      fs.get? other = some .directory := by
  by_cases hother : other = location
  · subst hother
    rw [get?_set_self (ne_nil_of_get?_ne hlocation)]
    constructor
    · intro h
      cases h
    · intro h
      exact absurd h hlocation
  · rw [get?_set_ne hother]

/-! ### Paths -/

/-- Where a path starts does not depend on what there is. -/
@[simp] lemma start_set (fs : FileSystem) (location : Location) (entry : Entry) (path : String) :
    (fs.set location entry).start path = fs.start path := rfl

/-- Parts of a path lead where they led before a file was put where no directory is. -/
lemma follow_set_iff (hlocation : fs.get? location ≠ some .directory) (content : List UInt8)
    {start target : Location} {parts : List String} :
    (fs.set location (.file content)).follow start parts = .ok target ↔
      fs.follow start parts = .ok target := by
  induction parts generalizing start with
  | nil => exact Iff.rfl
  | cons part rest ih =>
    simp only [follow]
    by_cases hstay : (part = "" || part = ".") = true
    · rw [if_pos hstay, if_pos hstay]
      exact ih
    · rw [if_neg hstay, if_neg hstay]
      by_cases hup : part = ".."
      · rw [if_pos hup, if_pos hup]
        exact ih
      · rw [if_neg hup, if_neg hup]
        by_cases hlast : rest = []
        · rw [if_pos hlast, if_pos hlast]
        · rw [if_neg hlast, if_neg hlast]
          -- On the way there are only directories, and these are the same ones as before.
          have hdirectory : (fs.set location (.file content)).get? (start ++ [part]) =
              some .directory ↔ fs.get? (start ++ [part]) = some .directory :=
            get?_set_eq_directory hlocation content
          by_cases hentry : fs.get? (start ++ [part]) = some .directory
          · rw [hentry, hdirectory.mpr hentry]
            exact ih
          · have hafter := mt hdirectory.mp hentry
            constructor
            · intro h
              split at h
              · cases h
              · cases h
              · contradiction
            · intro h
              split at h
              · cases h
              · cases h
              · contradiction

/-- A path leads where it led before a file was put where no directory is. -/
lemma locate_set_iff (hlocation : fs.get? location ≠ some .directory) (content : List UInt8)
    {path : String} {target : Location} :
    (fs.set location (.file content)).locate path = .ok target ↔
      fs.locate path = .ok target := by
  unfold locate
  rw [start_set]
  simp only [ne_eq, get?_set_eq_directory hlocation]
  split
  · exact Iff.rfl
  · split
    · exact Iff.rfl
    · exact follow_set_iff hlocation content

/-- Replacing the content of a file changes no path. -/
lemma follow_set_file {old : List UInt8} (hfile : fs.get? location = some (.file old))
    (content : List UInt8) (start : Location) (parts : List String) :
    (fs.set location (.file content)).follow start parts = fs.follow start parts := by
  have hne : location ≠ [] := ne_nil_of_get?_ne (by rw [hfile]; exact fun h => nomatch h)
  induction parts generalizing start with
  | nil => rfl
  | cons part rest ih =>
    simp only [follow, ih]
    by_cases hinner : start ++ [part] = location
    · rw [hinner, get?_set_self hne, hfile]
    · rw [get?_set_ne hinner]

/-- Replacing the content of a file leaves every path where it leads. -/
lemma locate_set_file {old : List UInt8} (hfile : fs.get? location = some (.file old))
    (content : List UInt8) (path : String) :
    (fs.set location (.file content)).locate path = fs.locate path := by
  have hlocation : fs.get? location ≠ some .directory := by
    rw [hfile]
    exact fun h => nomatch h
  unfold locate
  rw [start_set]
  simp only [ne_eq, get?_set_eq_directory hlocation, follow_set_file hfile]

/-- Replacing the content of a file makes nothing appear or disappear. -/
lemma holds_set_file {old : List UInt8} (hfile : fs.get? location = some (.file old))
    (content : List UInt8) (path : String) :
    (fs.set location (.file content)).holds path = fs.holds path := by
  have hne : location ≠ [] := ne_nil_of_get?_ne (by rw [hfile]; exact fun h => nomatch h)
  unfold holds
  rw [locate_set_file hfile]
  cases fs.locate path with
  | error fault => rfl
  | ok target =>
    by_cases htarget : target = location
    · simp only [htarget, get?_set_self hne, hfile, Option.isSome_some]
    · simp only [get?_set_ne htarget]

/-- Replacing the content of a file is seen only by paths that lead to the file. -/
lemma read_set_file {old : List UInt8} (hfile : fs.get? location = some (.file old))
    (content : List UInt8) {path : String} (hpath : fs.locate path ≠ .ok location) :
    (fs.set location (.file content)).read path = fs.read path := by
  unfold read
  rw [locate_set_file hfile]
  cases htarget : fs.locate path with
  | error fault => rfl
  | ok target =>
    have hne : target ≠ location := by
      rintro rfl
      exact hpath htarget
    simp only [bind, Except.bind, get?_set_ne hne]

/-! ### Writes -/

/-- A path that does not end in a slash is not trimmed. -/
lemma trimSlashes_eq {path : String} (h : (trimSlashes path).2 = false) :
    (trimSlashes path).1 = path := by
  have hlast : path.toList.reverse.head? ≠ some '/' := by
    simpa [trimSlashes] using h
  have hkeep : path.toList.reverse.dropWhile (· = '/') = path.toList.reverse := by
    cases hchars : path.toList.reverse with
    | nil => rfl
    | cons c rest =>
      have hc : c ≠ '/' := by
        rintro rfl
        rw [hchars] at hlast
        exact hlast rfl
      rw [List.dropWhile_cons_of_neg (by simpa using hc)]
  unfold trimSlashes
  simp only [hkeep, List.reverse_reverse]
  split
  · rename_i hnil
    rw [hnil, List.take_nil, ← hnil, String.ofList_toList]
  · exact String.ofList_toList

/-- A write that succeeds puts a file at the location of its path, where no directory is. -/
lemma exists_location_of_write {path : String} {content : List UInt8} {after : FileSystem}
    (h : fs.write path content = .ok after) :
    ∃ location, fs.locate path = .ok location ∧ fs.get? location ≠ some .directory ∧
      after = fs.set location (.file content) := by
  unfold write at h
  cases hslash : (trimSlashes path).2 with
  | true =>
    simp only [hslash, bind, Except.bind] at h
    split at h
    · cases h
    · split at h
      · cases h
      · cases h
  | false =>
    simp only [hslash, trimSlashes_eq hslash, bind, Except.bind] at h
    cases hlocate : fs.locate path with
    | error fault =>
      rw [hlocate] at h
      cases h
    | ok location =>
      simp only [hlocate, Bool.false_eq_true, if_false] at h
      refine ⟨location, rfl, ?_, ?_⟩
      · intro hentry
        rw [hentry] at h
        cases h
      · split at h
        · cases h
        · exact (Except.ok.inj h).symm

/-- Two paths lead to the same location. -/
def Same (fs : FileSystem) (path other : String) : Prop :=
  ∃ location, fs.locate path = .ok location ∧ fs.locate other = .ok location

/-- A write puts its content under its path and changes nothing else. -/
theorem lawful : FileSystem.store.Lawful Same := by
  intro fs path content after h
  obtain ⟨location, hlocate, hdirectory, rfl⟩ := exists_location_of_write h
  have hlocation : ∀ {other target}, ¬ fs.Same path other → fs.locate other = .ok target →
      target ≠ location := by
    rintro other target hsame htarget rfl
    exact hsame ⟨target, hlocate, htarget⟩
  have hfile : ∀ {other}, fs.Same path other →
      (fs.set location (.file content)).locate other = .ok location := by
    rintro other ⟨target, hpath, hother⟩
    cases hlocate.symm.trans hpath
    exact (locate_set_iff hdirectory content).mpr hother
  have hput : (fs.set location (.file content)).get? location = some (.file content) :=
    get?_set_self (ne_nil_of_get?_ne hdirectory) _
  refine ⟨⟨location, hlocate, hlocate⟩, ?_, ?_, ?_, ?_⟩
  · intro other hsame
    change (fs.set location (.file content)).holds other = true
    unfold holds
    simp only [hfile hsame, hput, Option.isSome_some]
  · intro other hsame
    change (fs.set location (.file content)).read other = .ok content
    unfold read
    rw [hfile hsame]
    simp only [bind, Except.bind, hput]
  · intro other hsame
    change (fs.set location (.file content)).holds other = fs.holds other
    unfold holds
    cases htarget : fs.locate other with
    | ok target =>
      rw [(locate_set_iff hdirectory content).mpr htarget]
      simp only [get?_set_ne (hlocation hsame htarget)]
    | error fault =>
      cases hafter : (fs.set location (.file content)).locate other with
      | error fault' => rfl
      | ok target =>
        rw [(locate_set_iff hdirectory content).mp hafter] at htarget
        cases htarget
  · intro other hsame found
    change (fs.set location (.file content)).read other = .ok found ↔ fs.read other = .ok found
    unfold read
    cases htarget : fs.locate other with
    | ok target =>
      rw [(locate_set_iff hdirectory content).mpr htarget]
      simp only [bind, Except.bind, get?_set_ne (hlocation hsame htarget)]
    | error fault =>
      cases hafter : (fs.set location (.file content)).locate other with
      | error fault' => simp only [bind, Except.bind, reduceCtorEq]
      | ok target =>
        rw [(locate_set_iff hdirectory content).mp hafter] at htarget
        cases htarget

/-- Replacing the content of a file makes no write succeed that failed, and none fail that
succeeded. -/
lemma fault_write_set_file {old : List UInt8} (hfile : fs.get? location = some (.file old))
    (content written : List UInt8) (path : String) (fault : FileFault) :
    (fs.set location (.file content)).write path written = .error fault ↔
      fs.write path written = .error fault := by
  have hne : location ≠ [] := ne_nil_of_get?_ne (by rw [hfile]; exact fun h => nomatch h)
  unfold write
  simp only [bind, Except.bind, locate_set_file hfile]
  cases fs.locate (trimSlashes path).1 with
  | error fault' => exact Iff.rfl
  | ok target =>
    by_cases htarget : target = location
    · simp only [htarget, get?_set_self hne, hfile]
      cases (trimSlashes path).2 <;> simp
    · simp only [get?_set_ne htarget]
      cases fs.get? target with
      | none => cases (trimSlashes path).2 <;> simp
      | some entry => cases entry <;> cases (trimSlashes path).2 <;> simp

end FileSystem

end DialogChart.CommandLine
