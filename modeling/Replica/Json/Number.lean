import Replica.Binary64.Shortest
import Replica.Numeral

/-!
# Numbers in JSON text

A numeral without point and exponent whose value fits a 64-bit word, signed or unsigned, is an
integer; every other one is a double, and so is `-0`. The digits of a double are kept only as long
as they fit an unsigned word, and the value is then scaled by a power of ten in double arithmetic. A
numeral beyond the largest double has no value.
-/
namespace Replica.Json

/-- A number: an integer that a 64-bit word holds, or a double. -/
inductive Number where
  | integer (value : Int) (inRange : -9223372036854775808 ≤ value ∧ value < 18446744073709551616)
  | float (value : Binary64)
  deriving DecidableEq

/-- The parts of a numeral as it is spelled, digits by value. -/
structure Figures where
  negative : Bool
  whole : List Nat
  fraction : List Nat
  power : Option Int

namespace Figures

/-- Appends digits to a significand as long as it stays an unsigned word; gives back the rest. -/
def absorb (significand : Nat) : List Nat → Nat × List Nat
  | [] => (significand, [])
  | d :: rest =>
    if significand * 10 + d ≤ Numeral.maxWord then absorb (significand * 10 + d) rest
    else (significand, d :: rest)

/-- The value of the numeral; nothing if it lies beyond the largest double. -/
def value? (f : Figures) : Option Number :=
  let (whole, wholeRest) := absorb 0 f.whole
  let (significand, fractionRest) := absorb whole f.fraction
  let scale : Int := wholeRest.length - (f.fraction.length - fractionRest.length : Nat)
  let power := scale + f.power.getD 0
  let double := (Binary64.ofDecimal? f.negative significand power).map Number.float
  if wholeRest.isEmpty && f.fraction.isEmpty && f.power.isNone then
    let value : Int := if f.negative then -(significand : Int) else significand
    if h : -9223372036854775808 ≤ value ∧ value < 18446744073709551616 then
      if f.negative && significand == 0 then double else some (.integer value h)
    else double
  else double

end Figures

namespace Number

def ofWord (w : UInt64) : Number :=
  .integer w.toNat (by have := w.toNat_lt; omega)

def ofSigned (i : Int64) : Number :=
  .integer i.toInt (by have := i.le_toInt; have := i.toInt_lt; omega)

def word? : Number → Option UInt64
  | .integer value _ => if 0 ≤ value then some (UInt64.ofNat value.toNat) else none
  | .float _ => none

def signed? : Number → Option Int64
  | .integer value _ => if value < 9223372036854775808 then some (Int64.ofInt value) else none
  | .float _ => none

def toChars : Number → List Char
  | .integer value _ =>
    if value < 0 then '-' :: Nat.toDigits 10 value.natAbs else Nat.toDigits 10 value.natAbs
  | .float value => value.toChars

end Number

end Replica.Json
