import Replica.Attachment.StagingId
import Replica.CommandLine.Run

/-!
# The program

Reads what the command will meet, runs it, and prints the outcome.
-/
namespace Replica.CommandLine

/-- The kind of a failure that the system reports. -/
def systemKind : IO.Error → IoErrorKind
  | .noFileOrDirectory .. => .notFound
  | .permissionDenied .. => .permissionDenied
  | .alreadyExists .. => .alreadyExists
  | .interrupted .. => .interrupted
  | .timeExpired .. => .timedOut
  | .resourceBusy .. => .resourceBusy
  | .unexpectedEof => .unexpectedEof
  | _ => .other

/-- What an action gives, or the failure that the system reports. -/
def attempting {α : Type} (action : IO α) : IO (Except IoError α) := do
  try
    return .ok (← action)
  catch e =>
    return .error ⟨systemKind e, toString e⟩

/-- The directory of some path; it refuses temporary files if a file of that name cannot be made. -/
def probe (path name : String) : IO Directory := do
  let file := path ++ "/" ++ TempFile.nameStem ++ name ++ TempFile.nameEnding
  let made ← attempting do
    IO.FS.writeBinFile file .empty
    IO.FS.removeFile file
  match made with
  | .ok () => return ⟨path, none⟩
  | .error e => return ⟨path, some e⟩

/-- The files that a command will meet. -/
def gather (id : String) : Except Stop Command → IO Files
  | .ok (.order file _) | .ok (.query file _ _) => do
    let content ← attempting (IO.FS.readBinFile file)
    return ⟨fun _ => content, (⟨·, none⟩), ⟨"", none⟩⟩
  | .ok (.stage file options _) => do
    let content ← attempting (IO.FS.readBinFile file)
    let fallback := (← IO.getEnv "TMPDIR").getD "/tmp"
    let directory ← probe (options.directory.getD fallback) id
    return ⟨fun _ => content, fun _ => directory, directory⟩
  | _ => return ⟨fun _ => .ok .empty, (⟨·, none⟩), ⟨"", none⟩⟩

end Replica.CommandLine

open Replica CommandLine in
def main (arguments : List String) : IO UInt32 := do
  let id := StagingId.ofRandom (← IO.getRandomBytes 16)
  let outcome := run (← gather id (Command.ofArguments arguments)) id arguments
  (← IO.getStdout).putStr outcome.output
  if let some complaint := outcome.complaint then
    (← IO.getStderr).putStrLn ("error: " ++ complaint)
  return UInt32.ofNat outcome.status
