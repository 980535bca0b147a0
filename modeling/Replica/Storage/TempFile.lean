import Replica.Storage.Basic

/-!
# Byte stores in temporary files

A file is its content, a cursor, and the faults that its next operations will meet: a fault may come
after part of a write has reached the disk, or after a read has moved the cursor. The store keeps
its own count of the bytes appended. An append writes at that count and moves it only when all bytes
are written, so what a failed append leaves behind lies past the end and is written over by the next
one.

Directories that refuse new files are named by their refusal.
-/
namespace Replica

/-- What goes wrong in an operation on a file, and how many bytes it deals with before. -/
structure FileFault where
  error : IoError
  done : Nat

/-- An open file. -/
structure File where
  content : ByteArray := .empty
  cursor : Nat := 0
  /-- The faults of the next operations, one by one; behind the list nothing fails. -/
  faults : List (Option FileFault) := []

namespace File

/-- The fault of the next operation, and the file behind it. -/
def nextFault (f : File) : Option FileFault × File :=
  match f.faults with
  | [] => (none, f)
  | fault :: rest => (fault, { f with faults := rest })

def seek (f : File) (offset : Nat) : Except IoError Unit × File :=
  match f.nextFault with
  | (some fault, f) => (.error fault.error, f)
  | (none, f) => (.ok (), { f with cursor := offset })

/-- The content with bytes put at a place, over what is there; a gap before the place fills with
zeros. -/
def overwrite (content : ByteArray) (offset : Nat) (data : ByteArray) : ByteArray :=
  content.extract 0 offset ++ (List.replicate (offset - content.size) (0 : UInt8)).toByteArray ++
    data ++ content.extract (offset + data.size) content.size

/-- Writes at the cursor and moves it behind what was written. -/
def put (f : File) (data : ByteArray) : File :=
  { f with content := overwrite f.content f.cursor data, cursor := f.cursor + data.size }

def writeAll (f : File) (data : ByteArray) : Except IoError Unit × File :=
  match f.nextFault with
  | (some fault, f) => (.error fault.error, f.put (data.extract 0 fault.done))
  | (none, f) => (.ok (), f.put data)

/-- The failure of a read that meets the end of the file. -/
def endOfFile : IoError := ⟨.unexpectedEof, "failed to fill whole buffer"⟩

def readExact (f : File) (length : Nat) : Except IoError ByteArray × File :=
  match f.nextFault with
  | (some fault, f) => (.error fault.error, { f with cursor := f.cursor + min fault.done length })
  | (none, f) =>
    if f.content.size < f.cursor + length then
      (.error endOfFile, { f with cursor := max f.cursor f.content.size })
    else
      (.ok (f.content.extract f.cursor (f.cursor + length)), { f with cursor := f.cursor + length })

end File

/-- A directory for temporary files, and why it refuses them if it does. -/
structure Directory where
  path : String
  refusal : Option IoError := none

/-- A byte store in a temporary file. -/
structure TempFile where
  file : File := {}
  length : Nat := 0

namespace TempFile

def create (d : Directory) : Except StorageError TempFile :=
  match d.refusal with
  | some source => .error (.tempAllocation d.path source)
  | none => .ok {}

/-- Reads a range, which must lie within the bytes appended. -/
def readAt (t : TempFile) (offset length : Nat) : Except StorageError ByteArray × TempFile :=
  if t.length < offset + length then (.error (.readPastEnd offset length t.length), t)
  else if length = 0 then (.ok .empty, t)
  else
    match t.file.seek offset with
    | (.error e, file) => (.error (.io e), { t with file })
    | (.ok (), file) =>
      match file.readExact length with
      | (.error e, file) => (.error (.io e), { t with file })
      | (.ok bytes, file) => (.ok bytes, { t with file })

def append (t : TempFile) (data : ByteArray) : Except StorageError Nat × TempFile :=
  if data.size = 0 then (.ok t.length, t)
  else
    match t.file.seek t.length with
    | (.error e, file) => (.error (.io e), { t with file })
    | (.ok (), file) =>
      match file.writeAll data with
      | (.error e, file) => (.error (.io e), { t with file })
      | (.ok (), file) => (.ok t.length, ⟨file, t.length + data.size⟩)

instance : Storage TempFile where
  size := TempFile.length
  readAt := TempFile.readAt
  append := TempFile.append
  flush t := (.ok (), t)

def nameStem : String := "docsync-staging-"

def nameEnding : String := ".blob"

end TempFile

inductive Backend where
  | memory (m : Memory)
  | file (t : TempFile)

namespace Backend

instance : Storage Backend where
  size
    | .memory m => Storage.size m
    | .file t => Storage.size t
  readAt
    | .memory m, offset, length => (Storage.readAt m offset length).map id .memory
    | .file t, offset, length => (Storage.readAt t offset length).map id .file
  append
    | .memory m, data => (Storage.append m data).map id .memory
    | .file t, data => (Storage.append t data).map id .file
  flush
    | .memory m => (Storage.flush m).map id .memory
    | .file t => (Storage.flush t).map id .file

def isFile : Backend → Bool
  | .memory _ => false
  | .file _ => true

end Backend

end Replica
