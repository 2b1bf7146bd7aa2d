import MarkupRepair.Issue.Basic
import MarkupRepair.Repair.Wildcard

/-!
# Repair policies

Which issue codes may be repaired. A code that a deny pattern matches is never permitted; any
other is permitted when there are no allow patterns or one of them matches.
-/

namespace MarkupRepair

/-- Patterns of the codes that may and may not be repaired. -/
structure RepairPolicy where
  /-- Permitted codes; all when empty. -/
  allow : List String := []
  /-- Refused codes. -/
  deny : List String := []
  deriving DecidableEq, Repr

namespace RepairPolicy

/-- Whether issues with a code may be repaired. -/
def permits (p : RepairPolicy) (code : String) : Bool :=
  !p.deny.any (wildcardMatches · code) &&
    (p.allow.isEmpty || p.allow.any (wildcardMatches · code))

/-- Whether the policy keeps a fixable issue from repair. -/
def withholds (p : RepairPolicy) (i : Issue) : Bool := i.fixable && !p.permits i.code

end RepairPolicy

end MarkupRepair
