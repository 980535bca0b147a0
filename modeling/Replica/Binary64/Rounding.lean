/-!
# Doubles, in exact arithmetic

A finite double is a sign, a significand below `2^53` and a power of two. Rounding a fraction goes
to the nearest double, a tie to the even significand, and fails when the nearest one would be
infinite. Everything here is computed with natural numbers, so that it can be reasoned about; no
machine floating point occurs.
-/
namespace Replica

/-- A finite double: the significand times two to the exponent, with a sign. The significand is
below `2^53`, and at least `2^52` unless the exponent is the least one, `-1074`. -/
structure Binary64 where
  negative : Bool
  significand : Nat
  exponent : Int
  deriving DecidableEq, Repr

namespace Binary64

structure Fraction where
  top : Nat
  bottom : Nat

namespace Fraction

/-- The whole number times two to a power. -/
def scaled (n : Nat) (power : Int) : Fraction :=
  if 0 ≤ power then ⟨n <<< power.toNat, 1⟩ else ⟨n, 1 <<< (-power).toNat⟩

def mul (a b : Fraction) : Fraction := ⟨a.top * b.top, a.bottom * b.bottom⟩

def div (a b : Fraction) : Fraction := ⟨a.top * b.bottom, a.bottom * b.top⟩

/-- The nearest whole number; a half goes to the even neighbour. -/
def nearestEven (f : Fraction) : Nat :=
  let below := f.top / f.bottom
  let rest := f.top % f.bottom
  if 2 * rest < f.bottom then below
  else if f.bottom < 2 * rest then below + 1
  else if below % 2 = 0 then below else below + 1

end Fraction

/-- The least significand of 53 bits: two to the power of 52. -/
def leastNormal : Nat := 4503599627370496

def leastExponent : Int := -1074

def greatestExponent : Int := 971

/-- The exponent at which the fraction's significand has 53 bits, or the least exponent. -/
def exponentFor (f : Fraction) : Int :=
  let guess : Int := (Nat.log2 f.top : Int) - (Nat.log2 f.bottom : Int) - 52
  let scaled := f.mul (Fraction.scaled 1 (-guess))
  max leastExponent (if scaled.top < leastNormal * scaled.bottom then guess - 1 else guess)

/-- The magnitude nearest to a fraction; nothing if that would be infinite. -/
def nearest? (f : Fraction) : Option (Nat × Int) :=
  if f.top = 0 then some (0, leastExponent)
  else
    let exponent := exponentFor f
    let significand := (f.mul (Fraction.scaled 1 (-exponent))).nearestEven
    let (significand, exponent) :=
      if significand = 2 * leastNormal then (leastNormal, exponent + 1) else (significand, exponent)
    if greatestExponent < exponent then none else some (significand, exponent)

def toFraction (magnitude : Nat × Int) : Fraction :=
  Fraction.scaled magnitude.1 magnitude.2

/-- The double nearest to a power of ten up to `10^308`. -/
def powerOfTen? (n : Nat) : Option (Nat × Int) :=
  nearest? ⟨Nat.pow 10 n, 1⟩

/-- The largest power of ten that is a finite double. -/
def greatestPower : Nat := 308

/-- Scales a magnitude by a power of ten in the steps of double arithmetic: one multiplication or
one division when the power of ten is itself a double, and divisions by the greatest power of ten
before that. Each step rounds. Nothing if the result would be infinite. -/
def scaleByTen? (magnitude : Nat × Int) (power : Int) : Option (Nat × Int) :=
  if 0 ≤ power then
    if power ≤ greatestPower then
      (powerOfTen? power.toNat).bind fun p => nearest? ((toFraction magnitude).mul (toFraction p))
    else if magnitude.1 = 0 then some magnitude else none
  else if -greatestPower ≤ power then
    (powerOfTen? (-power).toNat).bind fun p => nearest? ((toFraction magnitude).div (toFraction p))
  else if magnitude.1 = 0 then some magnitude
  else
    ((powerOfTen? greatestPower).bind fun p =>
      nearest? ((toFraction magnitude).div (toFraction p))).bind fun smaller =>
        scaleByTen? smaller (power + greatestPower)
  termination_by power.natAbs
  decreasing_by simp only [greatestPower] at *; omega

/-- The double that a decimal `significand * 10^power` is read as; nothing if it is too large. -/
def ofDecimal? (negative : Bool) (significand : Nat) (power : Int) : Option Binary64 :=
  ((nearest? ⟨significand, 1⟩).bind (scaleByTen? · power)).map fun (s, e) => ⟨negative, s, e⟩

end Binary64

end Replica
