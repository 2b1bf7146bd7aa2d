import MarkupRepair.Storage.Script

/-!
# The lock of a run

A run that may write documents holds a lock file at its root, so that no other such run works
there at the same time.
-/

namespace MarkupRepair

/-- The name of the lock file. -/
def lockFileName : String := ".xhtmlfix.lock"

/-- Why a run does not get its lock. -/
inductive LockError where
  /-- The lock file exists. -/
  | held (path : Path)
  /-- The lock file could not be created. -/
  | failed (why : Failure)
  deriving DecidableEq, Repr

/-- The error in words. -/
def LockError.message : LockError → String
  | .held path => s!"another xhtmlfix run holds {path}"
  | .failed why => why.full

namespace RunLock

/-- The lock file of a root. -/
def path (root : Path) : Path := Path.join root lockFileName

/-- Create the lock file of a root. -/
def acquire (root : Path) : Script (Except LockError Unit) := do
  match ← Script.request (.claim (path root)) with
  | .ok () => return .ok ()
  | .error .held => return .error (.held (path root))
  | .error (.failed why) => return .error (.failed why)

/-- Remove the lock file of a root. -/
def release (root : Path) : Script Unit := Script.request (.release (path root))

end RunLock

end MarkupRepair
