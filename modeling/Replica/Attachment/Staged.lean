import Replica.Attachment.Metadata
import Replica.Digest.Hex
import Replica.Storage.Reader
import Replica.Storage.TempFile

/-!
# Staged and committed attachments

A staged attachment is content in temporary storage, with its digest and what was declared about it.
Committing it checks its length and then copies it to the end of a blob area, a chunk at a time; a
length that does not fit touches nothing. A failure in the midst of copying leaves behind what has
been copied: whoever owns the blob area rolls it back.
-/
namespace Replica

/-- Content in temporary storage. -/
structure Staged where
  metadata : Metadata
  storage : Backend
  storedLength : Nat
  digest : ByteArray

/-- Content in a blob area. -/
structure Committed where
  metadata : Metadata
  offset : Nat
  length : Nat
  /-- The digest in hexadecimal. -/
  digest : String
  deriving DecidableEq

/-- Copies bytes from a store to the end of another until `total` are copied, a chunk at a time;
gives back how many have been. -/
def copyChunks {σ β : Type} [Storage σ] [Storage β] (source : σ) (target : β) (copied total : Nat) :
    Except StorageError Nat × β :=
  if _h : copied < total then
    let length := min (total - copied) chunkSize
    match Storage.readAt source copied length with
    | (.error e, _) => (.error e, target)
    | (.ok chunk, source) =>
      match Storage.append target chunk with
      | (.error e, target) => (.error e, target)
      | (.ok _, target) => copyChunks source target (copied + length) total
  else (.ok copied, target)
  termination_by total - copied
  decreasing_by simp only [chunkSize]; omega

namespace Staged

def digestHex (s : Staged) : String := Hex.encode s.digest

def readAll (s : Staged) : Except DocumentError ByteArray :=
  (Replica.readAll s.storage).mapError .attachmentIo

/-- Checks the number of stored bytes against what was declared. -/
def verify (s : Staged) : Except DocumentError Unit :=
  if s.storedLength = s.metadata.expectedLength then .ok ()
  else .error (.lengthMismatch s.metadata.expectedLength s.storedLength s.metadata.encoding)

/-- Moves the content to the end of a blob area. -/
def commit {β : Type} [Storage β] (s : Staged) (blobs : β) :
    Except DocumentError Committed × β :=
  match s.verify with
  | .error e => (.error e, blobs)
  | .ok () =>
    let offset := Storage.size blobs
    match copyChunks s.storage blobs 0 s.storedLength with
    | (.error e, blobs) => (.error (.storage e), blobs)
    | (.ok length, blobs) =>
      match Storage.flush blobs with
      | (.error e, blobs) => (.error (.storage e), blobs)
      | (.ok (), blobs) => (.ok ⟨s.metadata, offset, length, s.digestHex⟩, blobs)

/-- The attachment as it is shown to a developer, under an id. -/
def describe (s : Staged) (id : String) : String :=
  let m := s.metadata
  let encoding := match m.encoding with | .identity => "Identity" | .gzip => "Gzip"
  "StagedAttachment \x7b staging_id: " ++ id ++
    ", metadata: AttachmentMetadata \x7b content_type: " ++ Text.quote m.contentType ++
    ", encoding: " ++ encoding ++ s!", length: {m.length}, encoded_length: {m.encodedLength}" ++
    s!" \x7d, stored_length: {s.storedLength}, digest: " ++ Text.quote s.digestHex ++ ", .. \x7d"

end Staged

end Replica
