/-!
# Bytes in hexadecimal

Each byte is written as two lowercase digits.
-/
namespace Replica.Hex

/-- The two digits of a byte. -/
def byteChars (b : UInt8) : List Char :=
  [Nat.digitChar (b.toNat / 16), Nat.digitChar (b.toNat % 16)]

def encode (bytes : ByteArray) : String := String.ofList (bytes.data.toList.flatMap byteChars)

def digit? (c : Char) : Option Nat :=
  if '0' ≤ c ∧ c ≤ '9' then some (c.toNat - 48)
  else if 'a' ≤ c ∧ c ≤ 'f' then some (c.toNat - 87)
  else none

/-- The bytes that pairs of digits stand for. -/
def decodeChars? : List Char → Option (List UInt8)
  | [] => some []
  | [_] => none
  | a :: b :: rest =>
    (digit? a).bind fun a => (digit? b).bind fun b =>
      (decodeChars? rest).map (UInt8.ofNat (a * 16 + b) :: ·)

def decode? (s : String) : Option ByteArray := (decodeChars? s.toList).map List.toByteArray

end Replica.Hex
