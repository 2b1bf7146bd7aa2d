import MarkupRepair.Issue.Analysis
import MarkupRepair.Storage.Backup
import MarkupRepair.Storage.Sha256
import MarkupRepair.Text.Utf8

/-!
# Storing a repair

A repaired text is stored only when analysing it anew finds no fatal issue. It is written
through a backup session, read back, compared with what was to be written and analysed once
more; when any of that fails, the file is restored from the backup.
-/

namespace MarkupRepair

/-- The issues of a text without fatal ones; a text with fatal issues is refused. -/
def verify (t : Text) : Except Refusal (List Issue) :=
  let issues := analyze t
  let fatal := issues.countP Issue.isFatal
  if 0 < fatal then .error (.verificationFailed fatal) else .ok issues

/-- How storing a repair ended. -/
inductive CommitOutcome where
  /-- The repair is on the store; these issues remain in it. -/
  | committed (sha256After : String) (issuesRemaining : List Issue)
  /-- The repair could not be confirmed and the file is as it was before. -/
  | restored (reason : String)
  deriving DecidableEq, Repr

/-- Why what was read back is not the repair that was to be written, or its issues. -/
def confirm (expected : String) (readBack : Except Failure ByteArray) :
    Except String (List Issue) :=
  match readBack with
  | .error why => .error ("re-read failed: " ++ why.full)
  | .ok bytes =>
      let actual := sha256Hex bytes
      if actual != expected then
        .error s!"content on disk differs from what was written (sha256 {actual})"
      else
        match Text.decode? bytes with
        | none => .error "content on disk is not UTF-8"
        | some t => (verify t).mapError Refusal.message

/-- Store a repair of a document that still holds the text the repair was made from. -/
def commitRepair (target backup : Path) (former repaired : Text) :
    EditScript CommitOutcome := do
  let onDisk ← EditScript.ofStore (.request (.read target))
  if sha256Hex onDisk != sha256Hex former.encode then
    .refuse (.preconditionMismatch target)
  else
    let session ← BackupSession.snapshot ⟨target, backup, .untouched⟩
    let outcome ← ExceptT.lift (session.write repaired.encode).run
    match outcome with
    | .error why =>
        let _ ← session.restore
        throw why
    | .ok session =>
        let expected := sha256Hex repaired.encode
        let readBack ← ExceptT.lift (Script.request (.read target))
        match confirm expected readBack with
        | .ok issues =>
            let _ ← session.commit
            return .committed expected issues
        | .error reason =>
            let _ ← session.restore
            return .restored reason

end MarkupRepair
