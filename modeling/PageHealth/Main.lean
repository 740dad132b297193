import PageHealth.CommandLine.Run
import PageHealth.Report.Timestamp
import Std.Time.DateTime.Timestamp

namespace PageHealth

open Files (FileError Machine ReplaceError)

def Files.FileError.ofError : IO.Error → FileError
  | .noFileOrDirectory _ _ _ => .notFound
  | .alreadyExists _ _ _ => .alreadyThere
  | .inappropriateType _ code message =>
    if code = 20 then .notFolder else if code = 21 then .isFolder else .other message
  | error => .other (toString error)

def attempt {β : Type} (action : IO β) : IO (Except FileError β) :=
  try
    return .ok (← action)
  catch error =>
    return .error (.ofError error)

/-- A new file beside the old one takes its place when it is complete. -/
def replaceFile (path : String) (content : ByteArray) : IO (Except ReplaceError Unit) := do
  let name := "." ++ (Files.fileName? path).getD "" ++ "." ++ digitsText (← IO.monoNanosNow)
  let temporary := Files.inside ((Files.parent? path).getD "") name
  match ← attempt (IO.FS.Handle.mk temporary .writeNew) with
  | .error cause => return .error (.opening cause)
  | .ok handle =>
    match ← attempt (do handle.write content; handle.flush) with
    | .error cause =>
      IO.FS.removeFile temporary
      return .error (.writing cause)
    | .ok () =>
      match ← attempt (IO.FS.rename temporary path) with
      | .error cause =>
        IO.FS.removeFile temporary
        return .error (.finishing cause)
      | .ok () => return .ok ()

instance : Machine IO where
  isThere path := do
    match ← attempt (IO.FS.realPath path) with
    | .ok _ => return true
    | .error _ => return false
  read path := attempt (IO.FS.readBinFile path)
  createFolder path := attempt (IO.FS.createDirAll path)
  replace := replaceFile
  input := attempt do (← IO.getStdin).readBinToEnd
  now := do
    let moment ← Std.Time.Timestamp.now
    return (Timestamp.mk moment.val.second.val moment.val.nano.val.toNat).text
  clock := IO.monoNanosNow

def showNotice : CommandLine.Notice → IO Unit
  | .note event => do IO.eprintln ((← Machine.now) ++ " " ++ event.line)
  | .line text => IO.eprintln text

def CommandLine.Setting.ofProcess : IO Setting := do
  return {
    surroundings :=
      { home := ← IO.getEnv "HOME", configHome := ← IO.getEnv "XDG_CONFIG_HOME", accountHome := none }
    width := ((← IO.getEnv "COLUMNS").bind String.toNat?).filter (· ≠ 0)
    colours := ← (← IO.getStdout).isTty
    logSetting := ← IO.getEnv "RUST_LOG" }

end PageHealth

open PageHealth in
def main (arguments : List String) : IO UInt32 := do
  let setting ← CommandLine.Setting.ofProcess
  let result ← CommandLine.run setting arguments
  IO.print result.output
  result.notices.forM showNotice
  return UInt32.ofNat result.code
