import MarkupRepair.CommandLine.Execution
import MarkupRepair.Storage.Tree
import Std.Time.DateTime.Timestamp

/-!
# The program

Answers the requests of a command from the file system and prints how it ended.
-/

namespace MarkupRepair

/-- Why the system refused something. -/
def systemReason : IO.Error → String
  | .noFileOrDirectory .. => SystemError.notFound.message
  | .alreadyExists .. => SystemError.exists.message
  | .inappropriateType _ code details | .permissionDenied _ code details
  | .resourceExhausted _ code details | .invalidArgument _ code details
  | .noSuchThing _ code details | .otherError code details | .resourceBusy code details =>
      s!"{details} (os error {code})"
  | why => toString why

/-- An action that may fail, with what it was for and what was tried. -/
def attempt {α : Type} (doing tried : String) (path : Path) (action : IO α) :
    IO (Except Failure α) := do
  try return .ok (← action)
  catch why => return .error ⟨doing, [s!"failed to {tried} `{path}`: {systemReason why}"]⟩

/-- What stands at a path. -/
def systemKindOf (path : Path) : IO (Option FileKind) := do
  try
    let resolved ← IO.FS.realPath path
    if ← resolved.isDir then return some .directory
    else if ← resolved.pathExists then return some .file
    else return none
  catch _ => return none

/-- Create the directory that a path is in, then act. -/
def withParentDirectory (path : Path) (doing : Path → String)
    (action : IO (Except Failure Unit)) : IO (Except Failure Unit) := do
  match Path.parent? path with
  | none | some "" => action
  | some parent =>
      match ← attempt (doing parent) "create directory" parent (IO.FS.createDirAll parent) with
      | .ok () => action
      | .error why => return .error why

/-- Write a file. -/
def systemWrite (path : Path) (bytes : ByteArray) : IO (Except Failure Unit) :=
  attempt s!"write {path}" "create file" path (IO.FS.writeBinFile path bytes)

/-- Create a lock file. -/
def systemClaim (path : Path) : IO (Except ClaimError Unit) := do
  try
    let _ ← IO.FS.Handle.mk path .writeNew
    return .ok ()
  catch
    | .alreadyExists .. => return .error .held
    | why => return .error (.failed
        ⟨s!"create lock {path}", [s!"failed to open file `{path}`: {systemReason why}"]⟩)

/-- The answers of the file system. -/
def systemAnswer : (r : Request) → IO r.Answer
  | .read path => attempt s!"read {path}" "open file" path (IO.FS.readBinFile path)
  | .write path bytes => systemWrite path bytes
  | .copy source target =>
      withParentDirectory target (fun parent => s!"create dir {parent}")
        (attempt s!"copy {source} -> {target}" "copy file to" target do
          IO.FS.writeBinFile target (← IO.FS.readBinFile source))
  | .remove path => attempt s!"remove {path}" "remove file" path (IO.FS.removeFile path)
  | .isPresent path => do return (← systemKindOf path).isSome
  | .claim path => systemClaim path
  | .release path => do
      try IO.FS.removeFile path
      catch _ => return ()
  | .kindOf path => systemKindOf path
  | .list path =>
      attempt s!"list {path}" "read directory" path do
        let resolved ← IO.FS.realPath path
        return (← resolved.readDir).toList.map (·.fileName)
  | .makeDirectory path =>
      attempt s!"create_dir_all {path}" "create directory" path (IO.FS.createDirAll path)
  | .publish path bytes =>
      withParentDirectory path (fun _ => s!"create parent dir for {path}")
        (systemWrite path bytes)
  | .now => do
      let time ← Std.Time.Timestamp.now
      return ⟨time.toNanosecondsSinceUnixEpoch.toInt.toNat⟩

end MarkupRepair

/-- Carry out the command that the arguments give. -/
def main (arguments : List String) : IO UInt32 := do
  let result ← (MarkupRepair.executeLine arguments).runIn MarkupRepair.systemAnswer
  IO.print result.output
  if let some diagnosis := result.diagnosis then IO.eprintln diagnosis
  return UInt32.ofNat result.exitCode
