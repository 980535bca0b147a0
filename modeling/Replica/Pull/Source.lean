import Replica.Attachment.Stream
import Replica.Revision.Id

/-!
# Sources of attachment content

A source opens a fresh stream for an attachment of a revision, each time it is asked. The source in
memory can be told to fail: the next openings of an attachment fail, or the streams of its next
openings break off. Each such failure is used up by one opening, in the order in which they were
given, also when there is no content to open. A source also counts how often it was asked.
-/
namespace Replica

/-- An attachment of a revision of a document. -/
structure AttachmentKey where
  document : String
  revision : RevisionId
  name : String
  deriving DecidableEq

/-- What an opening is made to suffer. -/
inductive InjectedFailure where
  | opening (kind : IoErrorKind)
  /-- The stream breaks off behind so many bytes. -/
  | midStream (after : Nat) (kind : IoErrorKind)
  deriving DecidableEq

/-- A source in memory. -/
structure MemorySource where
  /-- Contents, latest first. -/
  contents : List (AttachmentKey × ByteArray) := []
  /-- Failures to come, in order. -/
  failures : List (AttachmentKey × InjectedFailure) := []
  opens : Nat := 0

namespace MemorySource

/-- Gives an attachment content, in place of what it had. -/
def insert (s : MemorySource) (key : AttachmentKey) (content : ByteArray) : MemorySource :=
  { s with contents := (key, content) :: s.contents }

/-- Makes openings of an attachment fail, so many times. -/
def inject (s : MemorySource) (key : AttachmentKey) (failure : InjectedFailure) (times : Nat) :
    MemorySource :=
  { s with failures := s.failures ++ List.replicate times (key, failure) }

def content? (s : MemorySource) (key : AttachmentKey) : Option ByteArray :=
  (s.contents.find? fun entry => entry.1 = key).map (·.2)

/-- The first failure of an attachment, and the failures that remain. -/
def takeFailure (key : AttachmentKey) :
    List (AttachmentKey × InjectedFailure) →
      Option InjectedFailure × List (AttachmentKey × InjectedFailure)
  | [] => (none, [])
  | entry :: rest =>
    if entry.1 = key then (some entry.2, rest)
    else
      let (failure, rest) := takeFailure key rest
      (failure, entry :: rest)

/-- The failure of an opening that was told to fail. -/
def refusal (key : AttachmentKey) (kind : IoErrorKind) : IoError :=
  ⟨kind, "injected open failure for " ++ key.name⟩

def absence (key : AttachmentKey) : IoError :=
  ⟨.notFound, "no attachment " ++ key.name ++ " on " ++ key.document ++ " at " ++ key.revision.text⟩

/-- A stream that breaks off behind so many bytes, or at the end of the content. -/
def breakingOff (content : ByteArray) (after : Nat) (kind : IoErrorKind) : Stream :=
  ⟨[.breakOff (content.extract 0 after) ⟨kind, "injected stream failure"⟩], 0⟩

def openStream (s : MemorySource) (key : AttachmentKey) : Except IoError Stream × MemorySource :=
  let (failure, failures) := takeFailure key s.failures
  let s := { s with failures, opens := s.opens + 1 }
  match failure, s.content? key with
  | some (.opening kind), _ => (.error (refusal key kind), s)
  | _, none => (.error (absence key), s)
  | some (.midStream after kind), some content => (.ok (breakingOff content after kind), s)
  | none, some content => (.ok (.ofBytes content), s)

end MemorySource

end Replica
