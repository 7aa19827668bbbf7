/-!
# Log records

What the program did on its way to a result, as data.  A record has a level, a message and
named values.
-/

namespace DialogChart

/-- How important a record is. -/
inductive Level where
  | info
  | debug
  | trace
  deriving DecidableEq, Repr

/-- The name of a level. -/
def Level.name : Level → String
  | .info => "info"
  | .debug => "debug"
  | .trace => "trace"

/-- A value of a record. -/
inductive LogValue where
  | text (s : String)
  | count (n : Nat)
  | length (x : Float32)

/-- A record. -/
structure LogRecord where
  level : Level
  message : String
  fields : List (String × LogValue) := []

/-- A result together with the records that were written on the way to it. -/
structure Logged (α : Type) where
  value : α
  records : List LogRecord := []

namespace Logged

variable {α β : Type}

/-- Continue from a result and keep its records in front. -/
def andThen (a : Logged α) (f : α → Logged β) : Logged β :=
  let b := f a.value
  ⟨b.value, a.records ++ b.records⟩

instance : Monad Logged where
  pure a := ⟨a, []⟩
  bind := andThen

/-- Write one record. -/
def write (r : LogRecord) : Logged Unit :=
  ⟨(), [r]⟩

/-- Write several records. -/
def writeAll (rs : List LogRecord) : Logged Unit :=
  ⟨(), rs⟩

end Logged

end DialogChart
