import MarkupRepair.Markup.Scan
import MarkupRepair.Markup.Element
import MarkupRepair.Issue.Basic

/-!
# Tag balance

Opening and closing tags of non-void elements are matched on a stack. A closing tag closes
the innermost open element of its name and interrupts every element opened after that one; a
closing tag that matches no open element is unexpected; what is still open at the end of the
document was never closed.
-/

namespace MarkupRepair

/-- A tag that the balance found wrong, and how. -/
structure BalanceFault where
  /-- What is wrong with the tag. -/
  kind : IssueKind
  /-- Where the tag starts. -/
  position : Position
  deriving DecidableEq, Repr

namespace Balance

/-- The elements open outside the innermost one of a given name, and those opened after it,
outermost first; `none` when no open element has that name. The stack has its innermost
element in front. -/
def unwind? (name : Text) : List TagToken → Option (List TagToken × List TagToken)
  | [] => none
  | frame :: outer =>
      if frame.name = name then some (outer, [])
      else (unwind? name outer).map fun (rest, inner) => (rest, inner ++ [frame])

/-- The fault of an element interrupted by a closing tag. -/
def interrupted (closer frame : TagToken) : BalanceFault :=
  ⟨.unclosedTag frame.name (.interrupted closer.name), frame.position⟩

/-- One tag: the stack after it and the faults it reveals. -/
def step (stack : List TagToken) (tag : TagToken) : List TagToken × List BalanceFault :=
  match tag.kind with
  | .selfClosing =>
      (stack,
        if isContainer tag.name then [⟨.selfClosedContainer tag.name, tag.position⟩] else [])
  | .opening => if isVoid tag.name then (stack, []) else (tag :: stack, [])
  | .closing =>
      if isVoid tag.name then (stack, [])
      else
        match unwind? tag.name stack with
        | some (outer, inner) => (outer, inner.map (interrupted tag))
        | none => (stack, [⟨.unclosedTag tag.name .unexpectedClose, tag.position⟩])

/-- The faults of the remaining tags, given the elements open before them. -/
def faultsFrom (stack : List TagToken) : List TagToken → List BalanceFault
  | [] =>
      stack.reverse.map fun frame => ⟨.unclosedTag frame.name .endOfDocument, frame.position⟩
  | tag :: rest =>
      let (next, faults) := step stack tag
      faults ++ faultsFrom next rest

/-- The faults of a sequence of tags. -/
def faults (tags : List TagToken) : List BalanceFault := faultsFrom [] tags

/-- The elements still open after a sequence of tags, innermost first. -/
def openAtEnd (tags : List TagToken) : List TagToken :=
  tags.foldl (fun stack tag => (step stack tag).1) []

end Balance

end MarkupRepair
