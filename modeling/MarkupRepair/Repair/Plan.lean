import MarkupRepair.Repair.Fix
import MarkupRepair.Repair.Policy

/-!
# Plans

The fixes for the issues of one scan, in the order in which they are applied. The first fix to
claim a stretch of a line keeps it; an issue whose fix would overlap it is deferred to a later
pass. Fixes with a place come first, from the bottom up and from right to left, so that those
still to come keep their places. Missing closing tags follow, innermost first, and then the
namespace, the document type and the XML declaration.
-/

namespace MarkupRepair

/-- A fix in a plan, with the issue it comes from. -/
structure PlannedFix where
  /-- What to change. -/
  fix : Fix
  /-- The code of the issue. -/
  code : String
  /-- The line of the issue. -/
  line : Option Nat
  /-- The column of the issue. -/
  column : Option Nat
  deriving DecidableEq, Repr

/-- The fixes of one pass and the issues left out of it. -/
structure RepairPlan where
  /-- The fixes in order. -/
  fixes : List PlannedFix := []
  /-- Fixable issues that overlap an earlier fix. -/
  deferred : List Issue := []
  /-- Fixable issues that the policy withholds. -/
  withheld : List Issue := []
  deriving DecidableEq, Repr

/-- Whether a fix concerns the declarations or the root element; a plan has each at most
once. -/
def Fix.isDeclaration : Fix → Bool
  | .ensureProlog | .ensureDoctype | .ensureNamespace => true
  | _ => false

namespace PlannedFix

/-- Whether a planned fix claims a stretch of a line that another fix needs. -/
def blocks (planned : PlannedFix) (fix : Fix) : Bool :=
  match planned.fix.footprint?, fix.footprint? with
  | some a, some b => a.overlaps b
  | _, _ => false

/-- The group in which a fix is applied. -/
def rank (planned : PlannedFix) : Nat :=
  match planned.fix with
  | .quoteAttribute .. | .collapseQuotes .. | .terminateEntity .. | .expandSelfClosing .. => 0
  | .closeElement _ => 1
  | .ensureNamespace => 2
  | .ensureDoctype => 3
  | .ensureProlog => 4

/-- Whether a fix is applied before another, or ties with it: by group, then from the last
line to the first, then from right to left. -/
def inOrder (a b : PlannedFix) : Bool :=
  let line := fun p : PlannedFix => p.line.getD 0
  let column := fun p : PlannedFix => p.column.getD 0
  a.rank < b.rank || (a.rank == b.rank && (line b < line a || (line a == line b &&
    column b ≤ column a)))

end PlannedFix

namespace RepairPlan

/-- Whether there is nothing to apply. -/
def isEmpty (p : RepairPlan) : Bool := p.fixes.isEmpty

/-- Take one issue into a plan whose fixes are still in the order of the issues. -/
def add (policy : RepairPolicy) (plan : RepairPlan) (i : Issue) : RepairPlan :=
  if !i.fixable then plan
  else if !policy.permits i.code then { plan with withheld := plan.withheld ++ [i] }
  else
    match i.fix? with
    | none => plan
    | some fix =>
        if plan.fixes.any (·.blocks fix) then { plan with deferred := plan.deferred ++ [i] }
        else if fix.isDeclaration && plan.fixes.any (·.fix == fix) then plan
        else { plan with fixes := plan.fixes ++ [⟨fix, i.code, i.line, i.column⟩] }

/-- The plan for issues in scan order. -/
def ofIssues (policy : RepairPolicy) (issues : List Issue) : RepairPlan :=
  let plan := issues.foldl (add policy) {}
  { plan with fixes := plan.fixes.mergeSort PlannedFix.inOrder }

end RepairPlan

/-- A fix that changed a document. -/
structure AppliedFix where
  /-- The code of the issue. -/
  code : String
  /-- What the fix did. -/
  description : String
  /-- The line of the issue. -/
  line : Option Nat
  deriving DecidableEq, Repr

namespace RepairPlan

/-- Apply fixes one after another to a text, skipping those that find nothing to change. -/
def applyFixes : List PlannedFix → Text → Text × List AppliedFix
  | [], t => (t, [])
  | planned :: rest, t =>
      match planned.fix.apply t with
      | some next =>
          let (result, applied) := applyFixes rest next
          (result, ⟨planned.code, planned.fix.describe, planned.line⟩ :: applied)
      | none => applyFixes rest t

/-- Apply a plan to a text. -/
def apply (plan : RepairPlan) (t : Text) : Text × List AppliedFix := applyFixes plan.fixes t

end RepairPlan

end MarkupRepair
