import Replica.Attachment.Metadata

/-!
# References to attachments

A revision carries a reference for each of its attachments. A stub names content that the receiver
already holds; every other reference stands for bytes that have to be fetched. Fields without a
value are left out when a reference is written, and so is the stub mark of a reference that is none.
-/
namespace Replica

/-- A reference to an attachment of a revision. -/
structure Reference where
  contentType : String
  length : UInt64 := 0
  encodedLength : Option UInt64 := none
  encoding : Option String := none
  digest : Option String := none
  revpos : Option UInt64 := none
  stub : Bool := false
  deriving DecidableEq

namespace Reference

def withEncoding (r : Reference) (encoding : String) (encodedLength : UInt64) : Reference :=
  { r with encoding := some encoding, encodedLength := some encodedLength }

def asStub (r : Reference) : Reference := { r with stub := true }

def needsDownload (r : Reference) : Bool := !r.stub

/-- The metadata that the reference declares. A missing encoded length is the decoded one. -/
def metadata (r : Reference) : Except DocumentError Metadata :=
  (Encoding.ofName r.encoding).map fun encoding =>
    ⟨r.contentType, encoding, r.length, r.encodedLength.getD r.length⟩

/-- A member that is written only if there is a value. -/
def member? {α : Type} (name : String) (toJson : α → Json.Value) :
    Option α → List (String × Json.Value)
  | some a => [(name, toJson a)]
  | none => []

def toJson (r : Reference) : Json.Value :=
  .object (
    [("content_type", .text r.contentType), ("length", .word r.length)] ++
      member? "encoded_length" .word r.encodedLength ++
      member? "encoding" .text r.encoding ++
      member? "digest" .text r.digest ++
      member? "revpos" .word r.revpos ++
      (if r.stub then [("stub", .bool true)] else []))

structure Draft where
  contentType : Option String := none
  length : Option UInt64 := none
  encodedLength : Option (Option UInt64) := none
  encoding : Option (Option String) := none
  digest : Option (Option String) := none
  revpos : Option (Option UInt64) := none
  stub : Option Bool := none

open Json.Decoder in
/-- The fields of a reference; all but the content type have a default. -/
def fields : List (Member Draft) := [
  field "content_type" false text (·.contentType) fun d v => { d with contentType := some v },
  field "length" true word (·.length) fun d v => { d with length := some v },
  field "encoded_length" true (optional word) (·.encodedLength)
    fun d v => { d with encodedLength := some v },
  field "encoding" true (optional text) (·.encoding) fun d v => { d with encoding := some v },
  field "digest" true (optional text) (·.digest) fun d v => { d with digest := some v },
  field "revpos" true (optional word) (·.revpos) fun d v => { d with revpos := some v },
  field "stub" true bool (·.stub) fun d v => { d with stub := some v }]

def decoder : Json.Decoder Reference := fun depth t => do
  let d ← Json.Decoder.record fields Json.Decoder.ignore {} depth t
  return {
    contentType := ← Json.Decoder.present "content_type" d.contentType
    length := d.length.getD 0
    encodedLength := d.encodedLength.join
    encoding := d.encoding.join
    digest := d.digest.join
    revpos := d.revpos.join
    stub := d.stub.getD false }

end Reference

end Replica
