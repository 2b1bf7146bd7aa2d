import MarkupRepair.Issue.Basic
import MarkupRepair.Storage.Failure

/-!
# Why a repair is not stored

A repair may be refused, because the state of the file or of the repair forbids it, or the
store may fail.
-/

namespace MarkupRepair

/-- The states of a backup session. -/
inductive BackupState where
  /-- Nothing has been done. -/
  | untouched
  /-- The backup holds the text as it was. -/
  | backedUp
  /-- The target has been written. -/
  | written
  /-- The repair stays and the backup is gone. -/
  | committed
  /-- The text as it was is back and the backup is gone. -/
  | restored
  deriving DecidableEq, Repr

namespace BackupState

/-- The name of a state. -/
def name : BackupState → String
  | .untouched => "untouched"
  | .backedUp => "backed_up"
  | .written => "written"
  | .committed => "committed"
  | .restored => "restored"

/-- The state with a given name. -/
def ofName? (s : String) : Option BackupState :=
  [untouched, backedUp, written, committed, restored].find? (·.name == s)

/-- Whether a session may go from one state to another. -/
def canMoveTo : BackupState → BackupState → Bool
  | .untouched, .backedUp => true
  | .backedUp, .written => true
  | .backedUp, .restored => true
  | .written, .committed => true
  | .written, .restored => true
  | _, _ => false

/-- Whether a session ends in a state. -/
def isTerminal (s : BackupState) : Bool := s == .committed || s == .restored

/-- A session ends exactly where no move is left. -/
theorem isTerminal_iff (s : BackupState) :
    s.isTerminal = true ↔ ∀ next, s.canMoveTo next = false := by
  constructor
  · intro h next
    cases s with
    | committed => cases next <;> rfl
    | restored => cases next <;> rfl
    | _ => cases h
  · intro h
    cases s
    · exact absurd (h .backedUp) (by decide)
    · exact absurd (h .written) (by decide)
    · exact absurd (h .committed) (by decide)
    · rfl
    · rfl

end BackupState

/-- Why a repair is refused. -/
inductive Refusal where
  /-- Fatal issues remain in the repaired text. -/
  | verificationFailed (fatal : Nat)
  /-- A backup of an earlier run is still there. -/
  | staleBackup (path : String)
  /-- The file is not the one that was analysed. -/
  | preconditionMismatch (path : String)
  /-- The session is not in a state for this step. -/
  | illegalTransition (source target : BackupState)
  deriving DecidableEq, Repr

/-- The refusal in words. -/
def Refusal.message : Refusal → String
  | .verificationFailed fatal => s!"fix verification failed: {fatal} fatal issue(s) remain"
  | .staleBackup path => s!"stale backup exists at {path}"
  | .preconditionMismatch path => s!"precondition mismatch: {path} changed since it was read"
  | .illegalTransition source target =>
      s!"illegal backup transition: {source.name} -> {target.name}"

/-- Why storing a repair ended early. -/
inductive EditError where
  /-- The repair was refused. -/
  | refused (why : Refusal)
  /-- The store failed. -/
  | runtime (why : Failure)
  deriving DecidableEq, Repr

namespace EditError

/-- The error in words; of a store failure only what could not be done. -/
def message : EditError → String
  | .refused why => "repair refused: " ++ why.message
  | .runtime why => "runtime error: " ++ why.message

/-- Whether the repair was refused. -/
def isRefusal : EditError → Bool
  | .refused _ => true
  | .runtime _ => false

/-- The exit code of a program that ends with this error: a failed verification leaves a file
unresolved, all else is a fault. -/
def exitCode : EditError → Nat
  | .refused (.verificationFailed _) => 1
  | _ => 2

end EditError

end MarkupRepair
