import Replica.Digest.Hex

/-!
# Staging ids

What is staged goes by a random id: sixteen bytes, of which six bits say that the id is random, as
thirty-two digits in groups of eight, four, four, four and twelve.
-/
namespace Replica.StagingId

/-- The bytes with the bits of a random id set. -/
def marked (bytes : ByteArray) : ByteArray :=
  (bytes.data.toList.zipIdx.map fun (b, i) =>
    if i = 6 then (b &&& 0x0f) ||| 0x40
    else if i = 8 then (b &&& 0x3f) ||| 0x80
    else b).toByteArray

/-- Cuts text into groups of given lengths; what is left forms the last one. -/
def grouped : List Nat → List Char → List (List Char)
  | [], cs => [cs]
  | n :: rest, cs => cs.take n :: grouped rest (cs.drop n)

def ofRandom (bytes : ByteArray) : String :=
  String.intercalate "-"
    ((grouped [8, 4, 4, 4] (Hex.encode (marked bytes)).toList).map String.ofList)

end Replica.StagingId
