import MarkupRepair.Proofs.Repair.Edits
import MarkupRepair.Proofs.Repair.Place
import MarkupRepair.Proofs.Repair.Rootless

/-!
# Repairs drop no content

Quotes, slashes and white space aside, every fix with a place and every closing tag only insert
characters. So without new declarations no repair takes away or moves anything else, however
many passes it makes.
-/

namespace MarkupRepair

/-- Whether a character may come and go in repairs. -/
def isIncidental (c : Char) : Bool := c == '"' || c == '\'' || c == '/' || isWhiteSpace c

/-- What is left of a text without quotes, slashes and white space. -/
def essential (t : Text) : Text := t.filter fun c => !isIncidental c

section Essential

@[simp] theorem essential_nil : essential [] = [] := rfl

@[simp] theorem essential_append (a b : Text) : essential (a ++ b) = essential a ++ essential b :=
  List.filter_append ..

theorem essential_cons (c : Char) (t : Text) :
    essential (c :: t) = if isIncidental c then essential t else c :: essential t := by
  cases h : isIncidental c <;> simp [essential, h]

/-- Incidental characters leave nothing. -/
theorem essential_eq_nil {t : Text} (h : ∀ c ∈ t, isIncidental c = true) : essential t = [] := by
  rw [essential, List.filter_eq_nil_iff]
  intro c hc
  simp [h c hc]

theorem isIncidental_of_isWhiteSpace {c : Char} (h : isWhiteSpace c = true) :
    isIncidental c = true := by
  simp [isIncidental, h]

@[simp] theorem essential_takeWhile_isWhiteSpace (t : Text) :
    essential (t.takeWhile isWhiteSpace) = [] :=
  essential_eq_nil fun _ hc => isIncidental_of_isWhiteSpace (List.mem_takeWhile_imp hc)

@[simp] theorem essential_trimStart (t : Text) : essential (trimStart t) = essential t := by
  have h := congrArg essential (takeWhile_append_trimStart t)
  rwa [essential_append, essential_takeWhile_isWhiteSpace, List.nil_append] at h

@[simp] theorem essential_reverse (t : Text) : essential t.reverse = (essential t).reverse :=
  List.filter_reverse

@[simp] theorem essential_trimEnd (t : Text) : essential (trimEnd t) = essential t := by
  have h := essential_trimStart t.reverse
  rw [trimEnd, essential_reverse]
  rw [trimStart, essential_reverse] at h
  rw [h, List.reverse_reverse]

end Essential

/-- Whether nothing essential of a text is missing from another or stands in another order. -/
def KeptIn (a b : Text) : Prop := (essential a).Sublist (essential b)

theorem KeptIn.refl (t : Text) : KeptIn t t := List.Sublist.refl _

theorem KeptIn.of_eq {a b : Text} (h : essential a = essential b) : KeptIn a b := by
  rw [KeptIn, h]

theorem KeptIn.trans {a b c : Text} (hab : KeptIn a b) (hbc : KeptIn b c) : KeptIn a c :=
  List.Sublist.trans hab hbc

theorem KeptIn.append {a b c d : Text} (hab : KeptIn a b) (hcd : KeptIn c d) :
    KeptIn (a ++ c) (b ++ d) := by
  rw [KeptIn, essential_append, essential_append]
  exact List.Sublist.append hab hcd

/-- Inserting something keeps the rest. -/
theorem KeptIn.insert (a b c : Text) : KeptIn (a ++ c) (a ++ b ++ c) := by
  refine KeptIn.append ?_ (KeptIn.refl c)
  rw [KeptIn, essential_append]
  exact List.sublist_append_left _ _

namespace Fix

section Edits

variable {before : Option Char} {after changed name value : Text}

@[simp] theorem essential_requote (value : Text) : essential (requote value) = essential value := by
  have hquote : isIncidental '"' = true := rfl
  have hfilter : essential (value.filter fun c => c != '"' && c != '\'') = essential value := by
    rw [essential, List.filter_filter]
    refine List.filter_congr fun c _ => ?_
    cases h : c == '"' <;> cases h' : c == '\'' <;> simp [isIncidental, bne, h, h']
  simp [requote, essential_cons, hquote, hfilter]

/-- Quoting a value keeps it. -/
theorem keptIn_quoteAt (h : quoteAt name value before after = some changed) :
    KeptIn after changed := by
  obtain ⟨space, gap, tail, rfl, rfl, -⟩ := exists_of_quoteAt h
  refine KeptIn.of_eq ?_
  simp only [essential_append, essential_requote]

/-- Reducing a run of quotes keeps everything else. -/
theorem keptIn_collapseAt {quotes : Nat} (h : collapseAt name quotes before after = some changed) :
    KeptIn after changed := by
  obtain ⟨space, gap, run, tail, rfl, rfl, -, -, -, hquotes⟩ := exists_of_collapseAt h
  have hrun : essential run = [] := by
    refine essential_eq_nil fun c hc => ?_
    obtain rfl := hquotes c hc
    rfl
  have hfewer : ∀ b : Bool, essential (if b then ['"', '"'] else ['"']) = [] := by
    decide
  refine KeptIn.of_eq ?_
  simp only [essential_append, hrun, hfewer]

/-- Completing a reference only inserts. -/
theorem keptIn_terminateAt {entity : Text} (h : terminateAt entity after = some changed) :
    KeptIn after changed := by
  obtain ⟨completion, tail, rfl, rfl, -⟩ := exists_of_terminateAt h
  rw [← List.append_assoc]
  exact KeptIn.insert entity completion tail

/-- Expanding a tag keeps its name and its body and inserts a closing tag. -/
theorem keptIn_expandAt (h : expandAt name after = some changed) : KeptIn after changed := by
  obtain ⟨tag, rest, -, hkind, rfl, rfl⟩ := exists_of_expandAt h
  obtain ⟨hleading, htrailing⟩ := TagText.slashes_of_selfClosing hkind
  have hshort : essential (tag.toText ++ rest) =
      essential ('<' :: (tag.name ++ trimEnd tag.body ++ ['>']) ++ rest) := by
    have hslash : isIncidental '/' = true := rfl
    simp [TagText.toText, hleading, htrailing, essential_cons, hslash]
  have hclosed := KeptIn.insert ('<' :: (tag.name ++ trimEnd tag.body ++ ['>']))
    (['<', '/'] ++ tag.name ++ ['>']) rest
  refine (KeptIn.of_eq hshort).trans ?_
  simpa using hclosed

/-- No edit takes anything essential away. -/
theorem keptIn_editAt {fix : Fix} (h : fix.editAt before after = some changed) :
    KeptIn after changed := by
  cases fix with
  | quoteAttribute p name value => exact keptIn_quoteAt h
  | collapseQuotes p name quotes => exact keptIn_collapseAt h
  | terminateEntity p entity => exact keptIn_terminateAt h
  | expandSelfClosing p tag => exact keptIn_expandAt h
  | _ => cases h

end Edits

section Apply

variable {t next : Text}

/-- A fix keeps what is essential wherever in its line it is applied. -/
theorem keptIn_applyInLine {fix : Fix} {p : Position} (h : fix.applyInLine p t = some next) :
    KeptIn t next := by
  obtain ⟨front, after, changed, rfl, rfl, hedit⟩ := exists_of_applyInLine h
  exact (KeptIn.refl front).append (keptIn_editAt hedit)

/-- A closing tag is inserted, or put at the end in place of white space. -/
theorem keptIn_applyClose (tag t : Text) : KeptIn t (applyClose tag t) := by
  unfold applyClose
  split
  next offset _ =>
    have hkept := KeptIn.insert (Text.takeBytes offset t) (closingTag tag ++ ['\n'])
      (Text.dropBytes offset t)
    rwa [Text.takeBytes_append_dropBytes] at hkept
  next =>
    have hkept := KeptIn.insert (trimEnd t) (['\n'] ++ closingTag tag ++ ['\n']) []
    refine (KeptIn.of_eq (essential_trimEnd t).symm).trans ?_
    simpa using hkept

/-- Only new declarations may take anything essential away. -/
theorem keptIn_apply {fix : Fix} (hfix : fix.isDeclaration = false)
    (h : fix.apply t = some next) : KeptIn t next := by
  cases fix with
  | closeElement tag =>
      obtain rfl := Option.some.inj h
      exact keptIn_applyClose tag t
  | quoteAttribute p name value => exact keptIn_applyInLine h
  | collapseQuotes p name quotes => exact keptIn_applyInLine h
  | terminateEntity p entity => exact keptIn_applyInLine h
  | expandSelfClosing p tag => exact keptIn_applyInLine h
  | ensureProlog => cases hfix
  | ensureDoctype => cases hfix
  | ensureNamespace => cases hfix

end Apply

end Fix

/-- The codes of the issues whose fixes put new declarations in place of others. -/
def declarationCodes : List String :=
  ["missing_xml_declaration", "missing_doctype", "missing_namespace"]

/-- Only issues with these codes have a declaration for a fix. -/
theorem code_mem_declarationCodes {i : Issue} {fix : Fix} (h : i.fix? = some fix)
    (hfix : fix.isDeclaration = true) : i.code ∈ declarationCodes := by
  unfold Issue.fix? at h
  split at h
  next =>
    dsimp only at h
    rw [Issue.code]
    split at h
    next hkind => simp [hkind, IssueKind.code, declarationCodes]
    next hkind => simp [hkind, IssueKind.code, declarationCodes]
    next hkind => simp [hkind, IssueKind.code, declarationCodes]
    next =>
      obtain rfl := Option.some.inj h
      cases hfix
    next => cases h
    all_goals
      obtain ⟨p, -, rfl⟩ := Option.map_eq_some_iff.mp h
      cases hfix
  next => cases h

/-- A plan under a policy that permits no declarations has none. -/
theorem RepairPlan.isDeclaration_eq_false {policy : RepairPolicy} {issues : List Issue}
    {planned : PlannedFix}
    (hpolicy : ∀ code ∈ declarationCodes, policy.permits code = false)
    (h : planned ∈ (ofIssues policy issues).fixes) : planned.fix.isDeclaration = false := by
  obtain ⟨i, -, hfix, hpermits⟩ := exists_issue_of_mem_fixes h
  rw [Bool.eq_false_iff]
  intro hdecl
  rw [hpolicy _ (code_mem_declarationCodes hfix hdecl)] at hpermits
  cases hpermits

/-- Repairs that may not touch the declarations drop no content: quotes, slashes and white space
aside, the text is still there in its order, whatever the budget of passes. -/
theorem essential_sublist_repair (options : RepairOptions) (t : Text)
    (hpolicy : ∀ code ∈ declarationCodes, options.policy.permits code = false) :
    (essential t).Sublist (essential (repair options t).content) := by
  refine repair_induction (KeptIn t) ?_ (KeptIn.refl t)
  intro current hcurrent
  refine RepairPlan.applyFixes_induction (KeptIn t) ?_ hcurrent
  intro planned hplanned before after hbefore happly
  exact hbefore.trans (Fix.keptIn_apply (RepairPlan.isDeclaration_eq_false hpolicy hplanned) happly)

/-- Under a policy that denies new declarations, an unclosed paragraph with an unquoted attribute
and an ampersand still has its tag and its letters after repairs. -/
theorem essential_sublist_repair_paragraph :
    (∀ code ∈ declarationCodes, RepairPolicy.permits { deny := ["missing_*"] } code = false) ∧
      "<pclass=a>Tom&Jerry".toList.Sublist (repair { policy := { deny := ["missing_*"] } }
        "<p class=a>Tom & Jerry".toList).content := by
  have hpolicy : ∀ code ∈ declarationCodes,
      RepairPolicy.permits { deny := ["missing_*"] } code = false := by
    decide +kernel
  have hessential : essential "<p class=a>Tom & Jerry".toList = "<pclass=a>Tom&Jerry".toList := by
    decide
  refine ⟨hpolicy, ?_⟩
  rw [← hessential]
  exact (essential_sublist_repair ⟨{ deny := ["missing_*"] }, defaultMaxPasses⟩
    "<p class=a>Tom & Jerry".toList hpolicy).trans List.filter_sublist

end MarkupRepair
