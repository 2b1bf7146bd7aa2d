import MarkupRepair.Issue.Analysis
import MarkupRepair.Repair.Plan

/-!
# Repairing a document

Analysing, planning and applying are repeated until nothing applies any more or the budget of
passes is spent. The issues that remain always come from analysing the final text.
-/

namespace MarkupRepair

/-- The pass budget when none is given. -/
def defaultMaxPasses : Nat := 3

/-- How to repair. -/
structure RepairOptions where
  /-- Which issues may be repaired. -/
  policy : RepairPolicy := {}
  /-- Upper bound on the number of passes; zero counts as one. -/
  maxPasses : Nat := defaultMaxPasses
  deriving DecidableEq, Repr

/-- What passes over a document have come to. -/
structure RepairPasses where
  /-- The text after all passes. -/
  content : Text
  /-- The issues of that text. -/
  issuesRemaining : List Issue
  /-- The fixes that changed something, in order. -/
  applied : List AppliedFix
  /-- Number of passes. -/
  passes : Nat
  deriving DecidableEq, Repr

/-- The outcome of repairing a document. -/
structure RepairResult where
  /-- The text after all passes. -/
  content : Text
  /-- Number of fixes that changed something. -/
  fixesApplied : Nat
  /-- The issues of that text. -/
  issuesRemaining : List Issue
  /-- The fixes that changed something, in order. -/
  applied : List AppliedFix
  /-- Number of passes. -/
  passes : Nat
  deriving DecidableEq, Repr

namespace RepairResult

/-- Whether any fix changed something. -/
def changed (r : RepairResult) : Bool := 0 < r.fixesApplied

/-- Whether a fatal issue remains. -/
def hasFatal (r : RepairResult) : Bool := r.issuesRemaining.any Issue.isFatal

end RepairResult

/-- One pass over a document whose issues are known. -/
def applyPass (policy : RepairPolicy) (issues : List Issue) (t : Text) :
    Text × List AppliedFix :=
  (RepairPlan.ofIssues policy issues).apply t

/-- At most `budget` passes over a text. A pass that plans nothing is not counted; one that
changes nothing is counted and is the last. -/
def repairWithin (policy : RepairPolicy) : (budget : Nat) → Text → RepairPasses
  | 0, t => ⟨t, analyze t, [], 0⟩
  | budget + 1, t =>
      let issues := analyze t
      let plan := RepairPlan.ofIssues policy issues
      if plan.isEmpty then ⟨t, issues, [], 0⟩
      else
        let (next, applied) := plan.apply t
        if applied.isEmpty then ⟨t, issues, [], 1⟩
        else
          let rest := repairWithin policy budget next
          { rest with applied := applied ++ rest.applied, passes := rest.passes + 1 }

/-- The outcome of a repair that ends after some passes. -/
def RepairPasses.result (p : RepairPasses) : RepairResult :=
  { content := p.content
    fixesApplied := p.applied.length
    issuesRemaining := p.issuesRemaining
    applied := p.applied
    passes := p.passes }

/-- Repair a document. -/
def repair (options : RepairOptions) (t : Text) : RepairResult :=
  (repairWithin options.policy (max options.maxPasses 1) t).result

end MarkupRepair
