import Replica.Attachment.Staged
import Replica.Attachment.Stream
import Replica.Digest.Sha256

/-!
# Staging

A stager copies a stream to its end into fresh temporary storage. Reads that were interrupted are
repeated; any other failure ends the staging, and its storage is dropped. An encoding that is not
known fails before storage is allocated, and storage that cannot be had fails before the first read.
The digest is taken of what was read, the storage holds what was appended.
-/
namespace Replica

inductive StagingLocation where
  | memory
  | directory (d : Directory)

namespace StagingLocation

def allocate : StagingLocation → Except StorageError Backend
  | .memory => .ok (.memory {})
  | .directory d => (TempFile.create d).map .file

def isMemory : StagingLocation → Bool
  | .memory => true
  | .directory _ => false

end StagingLocation

/-- A way of staging: the place, and how much is read at a time. -/
structure Stager where
  location : StagingLocation
  bufferSize : Nat := 64 * 1024

namespace Stager

/-- The stager with another buffer size, at least one byte. -/
def withBufferSize (s : Stager) (size : Nat) : Stager := { s with bufferSize := max size 1 }

/-- Copies a stream to its end, with room for one byte more than `spare` per read. Gives back the
storage and everything that was read. -/
def copyStream (spare : Nat) (stream : Stream) (storage : Backend) (received : ByteArray) :
    Except DocumentError (Backend × ByteArray) × Stream :=
  match _hr : stream.read (spare + 1) with
  | (.error e, stream') =>
    if e.kind = .interrupted then copyStream spare stream' storage received
    else (.error (.attachmentIo e), stream')
  | (.ok bytes, stream') =>
    if _hb : bytes.size = 0 then (.ok (storage, received), stream')
    else
      match Storage.append storage bytes with
      | (.error e, _) => (.error (.storage e), stream')
      | (.ok _, storage) => copyStream spare stream' storage (received ++ bytes)
  termination_by stream.weight
  decreasing_by
    · exact Stream.weight_read_error _hr
    · exact Stream.weight_read_ok _hr _hb

def stage (s : Stager) (stream : Stream) (metadata : Metadata) :
    Except DocumentError Staged × Stream :=
  match s.location.allocate with
  | .error e => (.error (.storage e), stream)
  | .ok storage =>
    match copyStream (s.bufferSize - 1) stream storage .empty with
    | (.error e, stream) => (.error e, stream)
    | (.ok (storage, received), stream) =>
      match Storage.flush storage with
      | (.error e, _) => (.error (.storage e), stream)
      | (.ok (), storage) =>
        (.ok ⟨metadata, storage, received.size, Sha256.digest received⟩, stream)

/-- Stages a stream whose coding is given by name. -/
def stageNamed (s : Stager) (stream : Stream) (contentType : String) (encoding : Option String)
    (length encodedLength : UInt64) : Except DocumentError Staged × Stream :=
  match Encoding.ofName encoding with
  | .error e => (.error e, stream)
  | .ok encoding => s.stage stream ⟨contentType, encoding, length, encodedLength⟩

end Stager

end Replica
