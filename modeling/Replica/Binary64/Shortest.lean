import Replica.Binary64.Rounding

/-!
# The shortest decimal that reads back

Of all decimals that round to a given double, the ones with the fewest digits are kept, and of those
the nearest is written. It suffices to look, for each number of digits, at the two neighbours of the
value on that decimal grid. Between `10^-5` and `10^16` the point is written in place, with `.0`
behind a whole number; elsewhere an exponent with its sign follows.
-/
namespace Replica.Binary64

def digitCount (n : Nat) : Nat := (Nat.toDigits 10 n).length

def Fraction.le (a b : Fraction) : Bool := a.top * b.bottom ≤ b.top * a.bottom

def Fraction.lt (a b : Fraction) : Bool := a.top * b.bottom < b.top * a.bottom

def Fraction.powerOfTen (power : Int) : Fraction :=
  if 0 ≤ power then ⟨Nat.pow 10 power.toNat, 1⟩ else ⟨1, Nat.pow 10 (-power).toNat⟩

/-- The number of digits before the decimal point; zero or less when zeros follow the point. -/
def pointPosition (f : Fraction) : Int :=
  if f.bottom ≤ f.top then digitCount (f.top / f.bottom)
  else
    let guess : Int := 1 - (digitCount (f.bottom / f.top) : Int)
    if (Fraction.powerOfTen guess).le f then guess + 1 else guess

/-- The reals that round to a magnitude: the ends belong to it when its significand is even. -/
structure Span where
  low : Fraction
  high : Fraction
  closed : Bool

/-- The interval of a nonzero magnitude: half a step to either side, and only a quarter below the
least significand of an exponent, where the step below is half as large. -/
def spanOf (significand : Nat) (exponent : Int) : Span :=
  let down := if significand = leastNormal ∧ leastExponent < exponent then 1 else 2
  { low := Fraction.scaled (4 * significand - down) (exponent - 2)
    high := Fraction.scaled (4 * significand + 2) (exponent - 2)
    closed := significand % 2 = 0 }

def Span.holds (s : Span) (f : Fraction) : Bool :=
  if s.closed then s.low.le f && f.le s.high else s.low.lt f && f.lt s.high

/-- The better neighbour of the value on the grid of multiples of `10^power` that lies in the span.
-/
def onGrid? (span : Span) (value : Fraction) (power : Int) : Option Nat :=
  let unit := Fraction.powerOfTen power
  let ratio := value.div unit
  let below := ratio.top / ratio.bottom
  let fits (d : Nat) := span.holds (Fraction.mul ⟨d, 1⟩ unit)
  match fits below, fits (below + 1) with
  | true, true => some ratio.nearestEven
  | true, false => some below
  | false, true => some (below + 1)
  | false, false => none

/-- Moves trailing zeros of the digits into the power, at most `fuel` of them. -/
def dropZeros : Nat → Nat → Int → Nat × Int
  | 0, digits, power => (digits, power)
  | fuel + 1, digits, power =>
    if digits % 10 = 0 then dropZeros fuel (digits / 10) (power + 1) else (digits, power)

/-- The shortest decimal of a nonzero magnitude, as digits and a power of ten. Seventeen digits
always suffice. -/
def shortest (significand : Nat) (exponent : Int) : Nat × Int :=
  let value := Fraction.scaled significand exponent
  let span := spanOf significand exponent
  let point := pointPosition value
  let found := (List.range' 1 17).findSome? fun (count : Nat) =>
    (onGrid? span value (point - count)).map fun digits => (digits, point - count)
  match found with
  | some (digits, power) => dropZeros 17 digits power
  | none => (0, 0)

/-- The digits with a point in place, or with an exponent. -/
def layOut (digits : List Char) (power : Int) : List Char :=
  let point := digits.length + power
  if 0 ≤ power ∧ point ≤ 16 then digits ++ List.replicate power.toNat '0' ++ ['.', '0']
  else if 0 < point ∧ point ≤ 16 then digits.take point.toNat ++ '.' :: digits.drop point.toNat
  else if -5 < point ∧ point ≤ 0 then ['0', '.'] ++ List.replicate (-point).toNat '0' ++ digits
  else
    let scale := point - 1
    let mark := 'e' :: (if 0 ≤ scale then '+' else '-') :: Nat.toDigits 10 scale.natAbs
    match digits with
    | [d] => d :: mark
    | d :: rest => d :: '.' :: rest ++ mark
    | [] => mark

def toChars (x : Binary64) : List Char :=
  let magnitude :=
    if x.significand = 0 then ['0', '.', '0']
    else
      let (digits, power) := shortest x.significand x.exponent
      layOut (Nat.toDigits 10 digits) power
  if x.negative then '-' :: magnitude else magnitude

end Replica.Binary64
