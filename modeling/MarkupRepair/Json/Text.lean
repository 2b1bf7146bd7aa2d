import MarkupRepair.Json.Value
import MarkupRepair.Text.Basic

/-!
# Texts, places and absent values as JSON

A text is a string, a span and a position are pairs of numbers, and a value that is absent is
null.
-/

namespace MarkupRepair

/-- A text as a JSON string. -/
def Json.ofText (t : Text) : Json := .str (String.ofList t)

/-- The text of a JSON string. -/
def Json.text? (value : Json) : Option Text := (value.str?).map String.toList

@[simp] theorem Json.text?_ofText (t : Text) : (Json.ofText t).text? = some t := by
  simp [Json.ofText, Json.text?, Json.str?]

namespace Json

/-- A value that may be absent. -/
def ofOption {α : Type} (encode : α → Json) : Option α → Json
  | some value => encode value
  | none => .null

/-- A list. -/
def ofList {α : Type} (encode : α → Json) (values : List α) : Json := .arr (values.map encode)

/-- A list of strings. -/
def ofStrings (values : List String) : Json := ofList .str values

end Json

/-- A span as its two offsets. -/
def Span.toJson (s : Span) : Json := .arr [.nat s.start, .nat s.stop]

/-- A position as its line and column. -/
def Position.toJson (p : Position) : Json := .arr [.nat p.line, .nat p.column]

end MarkupRepair
