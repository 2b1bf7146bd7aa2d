import MarkupRepair.Storage.EditError
import MarkupRepair.Storage.Script

/-!
# Backup sessions

One file is changed through a session: it is copied to a backup, then written, and then either
the repair is kept and the backup removed, or the backup is put back in its place. Every step
first checks that the session is in a state for it, and a step that fails leaves the session as
it was.
-/

namespace MarkupRepair

/-- The suffix of backups when none is given. -/
def defaultBackupSuffix : String := ".xhtmlfix.bak"

/-- Where backups go. -/
structure BackupOptions where
  /-- What is put after the name of the file. -/
  suffix : String := defaultBackupSuffix
  /-- A directory to hold the backups instead of the one of the file. -/
  directory : Option Path := none
  deriving DecidableEq, Repr

/-- The backup of a document, which is given relative to a root. -/
def BackupOptions.pathFor (options : BackupOptions) (root document : Path) : Path :=
  let base := match options.directory with
    | some directory =>
        if Path.isAbsolute directory then Path.join directory document
        else Path.join (Path.join root directory) document
    | none => Path.join root document
  base ++ options.suffix

/-- A session on one file. -/
structure BackupSession where
  /-- The file. -/
  target : Path
  /-- Its backup. -/
  backup : Path
  /-- The state of the session. -/
  state : BackupState := .untouched
  deriving DecidableEq, Repr

/-- A script that may end early with an error. -/
abbrev EditScript (α : Type) := ExceptT EditError Script α

namespace EditScript

/-- End early with a refusal. -/
def refuse {α : Type} (why : Refusal) : EditScript α := throw (.refused why)

/-- Ask for something that the store may fail to do. -/
def ofStore {α : Type} (script : Script (Except Failure α)) : EditScript α :=
  ExceptT.mk (script >>= fun answer => pure (answer.mapError .runtime))

end EditScript

namespace BackupSession

/-- Refuse a step to a state that the session cannot move to. -/
def check (s : BackupSession) (next : BackupState) : EditScript Unit :=
  if s.state.canMoveTo next then pure () else .refuse (.illegalTransition s.state next)

/-- Copy the target to the backup, which must not exist. -/
def snapshot (s : BackupSession) : EditScript BackupSession := do
  s.check .backedUp
  let stale ← ExceptT.lift (Script.request (.isPresent s.backup))
  if stale then .refuse (.staleBackup s.backup)
  else
    EditScript.ofStore (.request (.copy s.target s.backup))
    return { s with state := .backedUp }

/-- Write the target. -/
def write (s : BackupSession) (bytes : ByteArray) : EditScript BackupSession := do
  s.check .written
  EditScript.ofStore (.request (.write s.target bytes))
  return { s with state := .written }

/-- Keep what has been written and drop the backup. -/
def commit (s : BackupSession) : EditScript BackupSession := do
  s.check .committed
  EditScript.ofStore (.request (.remove s.backup))
  return { s with state := .committed }

/-- Put the backup back in place of the target and drop it. -/
def restore (s : BackupSession) : EditScript BackupSession := do
  s.check .restored
  let former ← EditScript.ofStore (.request (.read s.backup))
  EditScript.ofStore (.request (.write s.target former))
  EditScript.ofStore (.request (.remove s.backup))
  return { s with state := .restored }

end BackupSession

end MarkupRepair
