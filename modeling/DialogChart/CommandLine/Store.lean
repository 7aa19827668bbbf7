import DialogChart.Error

/-!
# Places where files are kept

The program needs three things of a place where files are kept: whether a path leads anywhere, the
content of the file at a path, and a way to write one.  A disk offers them as actions.  A store
offers them as functions of its state, so that what a program does to it can be computed.
-/

namespace DialogChart.CommandLine

/-- A place where files are kept. -/
structure Disk (m : Type → Type) where
  holds : String → m Bool
  read : String → m (Except FileFault (List UInt8))
  write : String → List UInt8 → m (Except FileFault Unit)

/-- A place where files are kept, by its state: whether a path leads to a file or a directory, the
content of the file at a path, and the state after a file was written. -/
structure Store (σ : Type) where
  holds : σ → String → Bool
  read : σ → String → Except FileFault (List UInt8)
  write : σ → String → List UInt8 → Except FileFault σ

/-- A store as a disk.  A write that fails leaves the state as it was. -/
def Store.disk {σ : Type} (store : Store σ) : Disk (StateM σ) where
  holds path := do return store.holds (← get) path
  read path := do return store.read (← get) path
  write path content := do
    match store.write (← get) path content with
    | .ok after =>
      set after
      return .ok ()
    | .error fault => return .error fault

end DialogChart.CommandLine
