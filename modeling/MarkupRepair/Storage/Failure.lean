/-!
# Failures

A failure says what could not be done and, beneath that, why.
-/

namespace MarkupRepair

/-- A failure and its causes, the immediate one first. -/
structure Failure where
  /-- What could not be done. -/
  message : String
  /-- Why, from the immediate cause on. -/
  causes : List String := []
  deriving DecidableEq, Repr

namespace Failure

/-- The failure with its causes in one line. -/
def full (f : Failure) : String := ": ".intercalate (f.message :: f.causes)

/-- A failure seen as the cause of another. -/
def inContext (f : Failure) (message : String) : Failure := ⟨message, f.message :: f.causes⟩

end Failure

end MarkupRepair
