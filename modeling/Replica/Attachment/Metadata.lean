import Replica.DocumentError

/-!
# What is declared about an attachment

A peer declares the type, the coding and both lengths of an attachment before its bytes arrive.
Which of the two lengths the stored bytes must have depends on the coding.
-/
namespace Replica

/-- The declared type, coding and lengths of an attachment. -/
structure Metadata where
  contentType : String
  encoding : Encoding
  length : UInt64
  encodedLength : UInt64
  deriving DecidableEq

namespace Metadata

/-- Metadata of content that is stored as it is. -/
def identity (contentType : String) (length : UInt64) : Metadata :=
  ⟨contentType, .identity, length, length⟩

/-- The number of bytes to be stored: the decoded length, or the encoded one of coded content. -/
def expectedLength (m : Metadata) : Nat :=
  if m.encoding.isContentCoded then m.encodedLength.toNat else m.length.toNat

def toJson (m : Metadata) : Json.Value :=
  .object [
    ("content_type", .text m.contentType),
    ("encoding", .text m.encoding.name),
    ("length", .word m.length),
    ("encoded_length", .word m.encodedLength)]

structure Draft where
  contentType : Option String := none
  encoding : Option Encoding := none
  length : Option UInt64 := none
  encodedLength : Option UInt64 := none

open Json.Decoder in
/-- The fields of metadata, all required. -/
def fields : List (Member Draft) := [
  field "content_type" false text (·.contentType) fun d v => { d with contentType := some v },
  field "encoding" false Encoding.decoder (·.encoding) fun d v => { d with encoding := some v },
  field "length" false word (·.length) fun d v => { d with length := some v },
  field "encoded_length" false word (·.encodedLength) fun d v => { d with encodedLength := some v }]

def decoder : Json.Decoder Metadata := fun depth t => do
  let d ← Json.Decoder.record fields Json.Decoder.ignore {} depth t
  return {
    contentType := ← Json.Decoder.present "content_type" d.contentType
    encoding := ← Json.Decoder.present "encoding" d.encoding
    length := ← Json.Decoder.present "length" d.length
    encodedLength := ← Json.Decoder.present "encoded_length" d.encodedLength }

end Metadata

end Replica
