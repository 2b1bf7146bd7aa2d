import MarkupRepair.Text.Basic

/-!
# Elements with rules of their own

Void elements never take a closing tag, so they are left out of the tag balance. Container
elements must be closed by a tag of their own, because readers take the self-closing form of
such an element for an opening tag.
-/

namespace MarkupRepair

/-- Elements that never take a closing tag. -/
def voidElements : List Text :=
  ["img", "br", "hr", "meta", "link", "input", "area", "base", "col", "embed", "source",
    "track", "wbr"].map String.toList

/-- Container elements, whose self-closing form readers mishandle. -/
def containerElements : List Text :=
  ["html", "head", "title", "style", "script", "body", "main", "section", "div", "p", "h1",
    "h2", "h3", "h4", "h5", "h6", "span", "iframe", "textarea"].map String.toList

/-- Whether an element of this name, in small letters, is void. -/
def isVoid (name : Text) : Bool := voidElements.contains name

/-- Whether an element of this name, in small letters, is a container. -/
def isContainer (name : Text) : Bool := containerElements.contains name

end MarkupRepair
