import MarkupRepair.Issue.Encoding
import MarkupRepair.Proofs.Json.Alike

/-!
# Issues are read back from their JSON

An issue, its kind and the cause of an unclosed tag write their fields into one object. No name is
used on two of these levels, so every field can be looked up in that object on its own, and the
code of the kind and the name of the cause tell which fields to look up.
-/

namespace MarkupRepair

open Json

namespace IssueKind

/-- The names of the fields of all kinds and causes. -/
def fieldNames : List String :=
  ["type", "found", "tag", "cause", "closed_by", "attribute", "value", "entity", "quotes"]

/-- Every kind writes its fields in one order. -/
theorem map_fst_fields_sublist (kind : IssueKind) :
    (kind.fields.map Prod.fst).Sublist fieldNames := by
  cases kind with
  | missingXmlDeclaration found =>
      exact (map_fst_optionalField_sublist "found" ofText found).cons_cons "type" |>.trans
        (by decide)
  | missingDoctype found =>
      exact (map_fst_optionalField_sublist "found" ofText found).cons_cons "type" |>.trans
        (by decide)
  | missingNamespace => exact (by decide : ["type"].Sublist fieldNames)
  | unclosedTag tag cause =>
      cases cause with
      | interrupted closedBy =>
          exact (by decide : ["type", "tag", "cause", "closed_by"].Sublist fieldNames)
      | unexpectedClose => exact (by decide : ["type", "tag", "cause"].Sublist fieldNames)
      | endOfDocument => exact (by decide : ["type", "tag", "cause"].Sublist fieldNames)
  | unquotedAttribute name value =>
      exact (by decide : ["type", "attribute", "value"].Sublist fieldNames)
  | malformedAttribute name value =>
      exact (by decide : ["type", "attribute", "value"].Sublist fieldNames)
  | invalidEntity entity => exact (by decide : ["type", "entity"].Sublist fieldNames)
  | corruptedQuotes name quotes =>
      exact (by decide : ["type", "attribute", "quotes"].Sublist fieldNames)
  | selfClosedContainer tag => exact (by decide : ["type", "tag"].Sublist fieldNames)

end IssueKind

namespace Issue

/-- The names of the fields of an issue, those of its kind first. -/
def fieldNames : List String :=
  IssueKind.fieldNames ++ ["message", "line", "column", "severity", "fixable"]

/-- The fields that an issue of any kind has. -/
def commonFields (i : Issue) : List (String × Json) :=
  [("message", .str i.message)] ++ optionalField "line" .nat i.line ++
    optionalField "column" .nat i.column ++
    [("severity", i.severity.toJson), ("fixable", .bool i.fixable)]

/-- The fields of the kind come first. -/
theorem fields_eq (i : Issue) : i.fields = i.kind.fields ++ i.commonFields := by
  simp [fields, commonFields]

/-- An issue writes its fields in one order. -/
theorem names_toJson_sublist (i : Issue) : i.toJson.names.Sublist fieldNames := by
  have hcommon : (i.commonFields.map Prod.fst).Sublist
      (["message"] ++ ["line"] ++ ["column"] ++ ["severity", "fixable"]) := by
    simp only [commonFields, List.map_append]
    exact (((List.Sublist.refl _).append (map_fst_optionalField_sublist _ _ _)).append
      (map_fst_optionalField_sublist _ _ _)).append (List.Sublist.refl _)
  rw [toJson, names, fields_eq, List.map_append]
  exact i.kind.map_fst_fields_sublist.append hcommon

/-- No name is used twice in an issue, whatever its kind carries. -/
theorem nodup_names_toJson (i : Issue) : i.toJson.names.Nodup :=
  i.names_toJson_sublist.nodup (by decide)

/-- A field is found among those of the kind or among the others, by its name. -/
theorem lookup?_fields (i : Issue) (name : String) :
    lookup? name i.fields =
      if name ∈ IssueKind.fieldNames then lookup? name i.kind.fields
      else lookup? name i.commonFields := by
  rw [fields_eq, lookup?_append]
  split_ifs with hname
  · have hne : ∀ other ∈ ["message", "line", "column", "severity", "fixable"], other ≠ name := by
      rintro other hother rfl
      revert other
      decide
    simp only [List.forall_mem_cons] at hne
    simp [commonFields, lookup?_append, hne]
  · rw [lookup?_eq_none_of_not_mem fun hmem => hname (i.kind.map_fst_fields_sublist.subset hmem),
      Option.none_or]

end Issue

namespace UnclosedCause

/-- The cause of an unclosed tag is read from the fields of its kind. -/
theorem ofFields?_eq_some (cause : UnclosedCause) {fields fields' : List (String × Json)}
    (hsame : SameFields fields fields')
    (hfields : ∀ name ∈ ["cause", "closed_by"], lookup? name fields = lookup? name cause.fields) :
    ofFields? fields' = some cause := by
  have hnamed : ∀ name, lookup? "cause" cause.fields = some (.str name) →
      ∃ value, lookup? "cause" fields' = some value ∧
        listedName? ["interrupted", "unexpected_close", "end_of_document"] value = some name := by
    intro name hget
    have hcause := (hfields "cause" (by decide)).trans hget
    exact Option.bind_eq_some_iff.mp (hsame.lookup?_bind hcause (reads_listedName _ name))
  cases cause with
  | interrupted closedBy =>
      obtain ⟨value, hvalue, hname⟩ := hnamed "interrupted" rfl
      have hclosedBy := (hfields "closed_by" (by decide)).trans rfl
      simp [ofFields?, hvalue, hname, hsame.required? hclosedBy (reads_text closedBy)]
  | unexpectedClose =>
      obtain ⟨value, hvalue, hname⟩ := hnamed "unexpected_close" rfl
      simp [ofFields?, hvalue, hname]
  | endOfDocument =>
      obtain ⟨value, hvalue, hname⟩ := hnamed "end_of_document" rfl
      simp [ofFields?, hvalue, hname]

end UnclosedCause

namespace IssueKind

/-- A kind is read from the fields of its issue. -/
theorem ofFields?_code (kind : IssueKind) {fields fields' : List (String × Json)}
    (hsame : SameFields fields fields')
    (hfields : ∀ name ∈ fieldNames, lookup? name fields = lookup? name kind.fields) :
    ofFields? kind.code fields' = some kind := by
  have htext : ∀ name ∈ fieldNames, ∀ t, lookup? name kind.fields = some (ofText t) →
      Json.required? text? fields' name = some t := fun name hname t hget =>
    hsame.required? ((hfields name hname).trans hget) (reads_text t)
  have hfound : ∀ found, lookup? "found" kind.fields = found.map ofText →
      Json.optional? text? fields' "found" = some found := fun found hget =>
    hsame.optional? ((hfields "found" (by decide)).trans hget) reads_text (by simp [ofText])
  cases kind with
  | missingXmlDeclaration found =>
      simp [code, ofFields?, hfound found (by simp [IssueKind.fields])]
  | missingDoctype found =>
      simp [code, ofFields?, hfound found (by simp [IssueKind.fields])]
  | missingNamespace => rfl
  | unclosedTag tag cause =>
      have hcause := cause.ofFields?_eq_some hsame fun name hname => by
        rw [hfields name (by revert name; decide)]
        revert name
        simp [IssueKind.fields]
      simp [code, ofFields?, htext "tag" (by decide) tag rfl, hcause]
  | unquotedAttribute name value =>
      simp [code, ofFields?, htext "attribute" (by decide) name rfl,
        htext "value" (by decide) value rfl]
  | malformedAttribute name value =>
      simp [code, ofFields?, htext "attribute" (by decide) name rfl,
        htext "value" (by decide) value rfl]
  | invalidEntity entity => simp [code, ofFields?, htext "entity" (by decide) entity rfl]
  | corruptedQuotes name quotes =>
      have hquotes := hsame.required? ((hfields "quotes" (by decide)).trans rfl) (reads_nat quotes)
      simp [code, ofFields?, htext "attribute" (by decide) name rfl, hquotes]
  | selfClosedContainer tag => simp [code, ofFields?, htext "tag" (by decide) tag rfl]

end IssueKind

namespace Issue

/-- An issue is read back from its JSON. -/
theorem reads_toJson (i : Issue) : Reads ofJson? i.toJson i := by
  intro value halike
  obtain ⟨fields', rfl, hsame⟩ := halike.exists_sameFields i.nodup_names_toJson
  have hcode : (lookup? "type" fields').bind (listedName? IssueKind.allCodes) =
      some i.kind.code :=
    hsame.lookup?_bind (i.lookup?_fields "type") (reads_listedName _ _)
  have hkind : IssueKind.ofFields? i.kind.code fields' = some i.kind :=
    i.kind.ofFields?_code hsame fun name hname => by rw [lookup?_fields, if_pos hname]
  have hmessage : Json.required? str? fields' "message" = some i.message :=
    hsame.required? (i.lookup?_fields "message") (reads_str i.message)
  have hline : Json.optional? nat? fields' "line" = some i.line := by
    refine hsame.optional? ((i.lookup?_fields "line").trans ?_) reads_nat (by simp)
    simp [IssueKind.fieldNames, commonFields, lookup?_append]
  have hcolumn : Json.optional? nat? fields' "column" = some i.column := by
    refine hsame.optional? ((i.lookup?_fields "column").trans ?_) reads_nat (by simp)
    simp [IssueKind.fieldNames, commonFields, lookup?_append]
  have hseverity : Json.required? Severity.ofJson? fields' "severity" = some i.severity := by
    refine hsame.required? ((i.lookup?_fields "severity").trans ?_)
      (reads_caseName i.severity.ofName?_name)
    simp [IssueKind.fieldNames, commonFields, lookup?_append, Severity.toJson]
  have hfixable : Json.required? bool? fields' "fixable" = some i.fixable := by
    refine hsame.required? ((i.lookup?_fields "fixable").trans ?_) (reads_bool i.fixable)
    simp [IssueKind.fieldNames, commonFields, lookup?_append]
  obtain ⟨type, htype, hname⟩ := Option.bind_eq_some_iff.mp hcode
  simp [ofJson?, htype, hname, hkind, hmessage, hline, hcolumn, hseverity, hfixable]

/-- The cause may stand in front of the code, and a field that an issue does not have is ignored. -/
example : ofJson? (.obj [("closed_by", .str "body"), ("cause", .str "interrupted"),
    ("fixable", .bool false), ("entity", .null), ("tag", .str "p"), ("severity", .str "fatal"),
    ("message", .str "open"), ("type", .str "unclosed_tag"), ("line", .nat 7)]) =
    some ⟨.unclosedTag ['p'] (.interrupted "body".toList), "open", some 7, none, .fatal,
      false⟩ := by
  decide

end Issue

end MarkupRepair
