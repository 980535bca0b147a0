import Replica.Attachment.Staged
import Replica.Pull.Error
import Replica.Pull.Source
import Replica.Revision.Fragment

/-!
# The revision store

A store keeps the revisions of documents, their attachments in one blob area, and a log of what it
accepted. A strict store takes a fragment only if it starts at generation one, or its oldest
revision is known, or some revision of the document is known one generation below it. A store with a
capacity takes attachments only as far as they fit. An insertion that is refused, at whatever point,
leaves the store as it was: what has been copied into the blob area by then is cut off again.
-/
namespace Replica

/-- An insertion that was accepted. -/
structure Inserted where
  document : String
  leaf : RevisionId
  minGeneration : Nat
  attachments : List String
  deriving DecidableEq

/-- A store of revisions in memory. -/
structure RevisionStore where
  strict : Bool := false
  capacity : Option Nat := none
  /-- The known revisions, each with its document. -/
  revisions : List (String × RevisionId) := []
  /-- Attachments by key; the latest entry of a key counts. -/
  attachments : List (AttachmentKey × Committed) := []
  blobs : Memory := {}
  log : List Inserted := []
  deriving DecidableEq

namespace RevisionStore

def contains (s : RevisionStore) (document : String) (r : RevisionId) : Bool :=
  (document, r) ∈ s.revisions

def attachment? (s : RevisionStore) (key : AttachmentKey) : Option Committed :=
  (s.attachments.find? fun entry => entry.1 = key).map (·.2)

def attachmentBytes (s : RevisionStore) (c : Committed) : Except PullError ByteArray :=
  (s.blobs.slice c.offset c.length).mapError fun e => .document (.storage e)

/-- Does the fragment join on to what is known of its document? -/
def isAnchored (s : RevisionStore) (f : Fragment) : Bool :=
  f.minGeneration = 1 || s.contains f.document f.oldest ||
    s.revisions.any fun (document, r) =>
      document = f.document && r.generation = f.minGeneration - 1

/-- Checks that a strict store may take the fragment. -/
def checkAncestry (s : RevisionStore) (f : Fragment) : Except PullError Unit :=
  if s.isAnchored f then .ok ()
  else
    .error (.store
      (s!"no parent at generation {f.minGeneration - 1} for " ++ f.oldest.text ++ " of " ++
        f.document))

def verifyAll : List (String × Staged) → Except PullError Unit
  | [] => .ok ()
  | (_, staged) :: rest =>
    match staged.verify with
    | .error e => .error (.document e)
    | .ok () => verifyAll rest

/-- Checks that an attachment fits into a blob area of so many bytes. -/
def checkCapacity (capacity : Option Nat) (used : Nat) (name : String) (staged : Staged) :
    Except PullError Unit :=
  match capacity with
  | none => .ok ()
  | some capacity =>
    if capacity < used + staged.storedLength then
      .error (.store
        ("blob area full: " ++ name ++
          s!" needs {staged.storedLength} bytes, {used} of {capacity} used"))
    else .ok ()

/-- Commits attachments to the blob area, one behind the other. -/
def commitAll (capacity : Option Nat) (blobs : Memory) :
    List (String × Staged) → Except PullError (List (String × Committed)) × Memory
  | [] => (.ok [], blobs)
  | (name, staged) :: rest =>
    match checkCapacity capacity blobs.bytes.size name staged with
    | .error e => (.error e, blobs)
    | .ok () =>
      match staged.commit blobs with
      | (.error e, blobs) => (.error (.document e), blobs)
      | (.ok committed, blobs) =>
        match commitAll capacity blobs rest with
        | (.error e, blobs) => (.error e, blobs)
        | (.ok others, blobs) => (.ok ((name, committed) :: others), blobs)

/-- Adds what is not known yet. -/
def addRevisions (known : List (String × RevisionId)) (document : String) :
    List RevisionId → List (String × RevisionId)
  | [] => known
  | r :: rest =>
    if (document, r) ∈ known then addRevisions known document rest
    else addRevisions ((document, r) :: known) document rest

/-- Adds attachments of a revision, the last one last. -/
def addAttachments (known : List (AttachmentKey × Committed)) (document : String)
    (leaf : RevisionId) : List (String × Committed) → List (AttachmentKey × Committed)
  | [] => known
  | (name, c) :: rest => addAttachments ((⟨document, leaf, name⟩, c) :: known) document leaf rest

/-- Inserts the revisions of a fragment with the attachments of its leaf. -/
def insert (s : RevisionStore) (f : Fragment) (attachments : List (String × Staged)) :
    Except PullError Unit × RevisionStore :=
  match if s.strict then s.checkAncestry f else .ok () with
  | .error e => (.error e, s)
  | .ok () =>
    match verifyAll attachments with
    | .error e => (.error e, s)
    | .ok () =>
      let mark := s.blobs.bytes.size
      match commitAll s.capacity s.blobs attachments with
      | (.error e, blobs) => (.error e, { s with blobs := blobs.truncate mark })
      | (.ok committed, blobs) =>
        (.ok (), { s with
          blobs
          attachments := addAttachments s.attachments f.document f.leaf committed
          revisions := addRevisions s.revisions f.document f.revisions
          log := s.log ++ [⟨f.document, f.leaf, f.minGeneration, attachments.map (·.1)⟩] })

end RevisionStore

end Replica
