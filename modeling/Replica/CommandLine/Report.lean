import Replica.Attachment.Staged
import Replica.CommandLine.Help
import Replica.Revision.Batch

/-!
# Reports

What the commands show: the fragments of a batch in insertion order, and what was staged. Each
report can be written as lines for people or as JSON.
-/
namespace Replica.CommandLine

/-- A fragment at its place in the insertion order. -/
structure OrderEntry where
  position : Nat
  leaf : RevisionId
  minGeneration : Nat
  /-- The number of the fragment's revisions. -/
  revisions : Nat
  deriving DecidableEq

namespace OrderEntry

def ofBatch (b : Batch) : List OrderEntry :=
  b.fragments.zipIdx.map fun (f, i) => ⟨i, f.leaf, f.minGeneration, f.ids.length⟩

def line (e : OrderEntry) : String :=
  alignRight 4 (toString e.position) ++ "  " ++ alignLeft 40 e.leaf.text ++
    s!" min_generation={e.minGeneration} revisions={e.revisions}\n"

def toJson (e : OrderEntry) : Json.Value :=
  .object [
    ("position", .count e.position),
    ("leaf", .text e.leaf.text),
    ("min_generation", .count e.minGeneration),
    ("revisions", .count e.revisions)]

end OrderEntry

/-- What was staged, under its id, and what is wrong with its length. -/
structure StageReport where
  id : String
  metadata : Metadata
  storedLength : Nat
  digest : String
  complaint : Option String

namespace StageReport

def ofStaged (id : String) (s : Staged) : StageReport where
  id := id
  metadata := s.metadata
  storedLength := s.storedLength
  digest := s.digestHex
  complaint := match s.verify with
    | .ok () => none
    | .error e => some e.message

def lines (r : StageReport) : String :=
  "Staging id:      " ++ r.id ++ "\n" ++
  "Content type:    " ++ r.metadata.contentType ++ "\n" ++
  "Encoding:        " ++ r.metadata.encoding.name ++ "\n" ++
  s!"Length:          {r.metadata.length}\n" ++
  s!"Encoded length:  {r.metadata.encodedLength}\n" ++
  s!"Stored length:   {r.storedLength}\n" ++
  "SHA-256:         " ++ r.digest ++ "\n\n" ++
  match r.complaint with
  | none => "✓ Length check passed\n"
  | some complaint => "✗ " ++ complaint ++ "\n"

def toJson (r : StageReport) : Json.Value :=
  .object (
    [("staging_id", .text r.id),
     ("content_type", .text r.metadata.contentType),
     ("encoding", .text r.metadata.encoding.name),
     ("length", .word r.metadata.length),
     ("encoded_length", .word r.metadata.encodedLength),
     ("stored_length", .count r.storedLength),
     ("digest", .text r.digest)] ++
    match r.complaint with
    | none => []
    | some complaint => [("error", .text complaint)])

end StageReport

end Replica.CommandLine
