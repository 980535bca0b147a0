/-!
# Decimal numerals

How numbers are read from text: an optional sign, then one or more ASCII digits, then nothing.
Leading zeros are allowed, blanks are not, and the value must lie in the range asked for.
`naturalChars?` takes a plus sign only; `integer?` takes either sign and the range of a signed
64-bit word.
-/
namespace Replica.Numeral

def maxWord : Nat := 18446744073709551615

/-- The value of a run of digits that continues a numeral worth `acc` so far; nothing if another
character occurs. -/
def digitsValue? (acc : Nat) : List Char → Option Nat
  | [] => some acc
  | c :: rest => if c.isDigit then digitsValue? (acc * 10 + (c.toNat - 48)) rest else none

def unsigned? : List Char → Option Nat
  | [] => none
  | c :: rest => digitsValue? 0 (c :: rest)

/-- The digits behind an optional plus sign. -/
def dropPlus : List Char → List Char
  | '+' :: rest => rest
  | cs => cs

/-- Reads a natural number of at most `limit`. -/
def naturalChars? (limit : Nat) (cs : List Char) : Option Nat :=
  (unsigned? (dropPlus cs)).filter (· ≤ limit)

def natural? (limit : Nat) (s : String) : Option Nat :=
  naturalChars? limit s.toList

/-- The value of an optional sign and one or more digits. -/
def signed? : List Char → Option Int
  | '-' :: rest => (unsigned? rest).map fun n => -(n : Int)
  | cs => (unsigned? (dropPlus cs)).map fun n => (n : Int)

/-- Reads an integer that a signed 64-bit word holds. -/
def integer? (s : String) : Option Int64 :=
  (signed? s.toList).bind fun i =>
    if -9223372036854775808 ≤ i ∧ i < 9223372036854775808 then some (Int64.ofInt i) else none

end Replica.Numeral
