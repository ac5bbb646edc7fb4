/-!
# Shortest decimals

The shortest decimal that reads back as a given 64-bit number; of several of that length, the one
nearest to the number. All arithmetic is exact: the number is a fraction, and the decimals that read
back as it are those in the interval of reals that round to it.
-/
namespace JarRefit.Decimal

/-- A positive decimal: its digits, as a number, times a power of ten. -/
structure Scaled where
  digits : Nat
  exponent : Int
deriving DecidableEq, Repr

/-- The reals that round to a number. Its bounds and the number itself are fractions over one
denominator. -/
structure RoundingInterval where
  low : Nat
  value : Nat
  high : Nat
  denominator : Nat
  /-- Whether the bounds themselves round to the number. -/
  closed : Bool
deriving DecidableEq, Repr

namespace RoundingInterval

/-- The interval of `m * 2 ^ q`. The gap below is half as wide if `m` is the least significand of
its power of two. -/
def ofBinary (m : Nat) (q : Int) (narrow : Bool) : RoundingInterval :=
  let up := Nat.pow 2 q.toNat
  { low := (4 * m - if narrow then 1 else 2) * up
    value := 4 * m * up
    high := (4 * m + 2) * up
    denominator := 4 * Nat.pow 2 (-q).toNat
    closed := m % 2 == 0 }

/-- The least significand of a number that is not among the smallest ones. -/
def leastSignificand : Nat := 0x10000000000000

/-- The interval of a number that is positive and finite, given by its bits. -/
def ofBits (bits : Nat) : RoundingInterval :=
  let fraction : Nat := bits % leastSignificand
  let exponent : Nat := bits / leastSignificand % 0x800
  if exponent = 0 then ofBinary fraction (-1074) false
  else
    ofBinary (leastSignificand + fraction) ((exponent : Int) - 1075)
      (fraction == 0 && exponent > 1)

/-- The interval with its unit multiplied by a power of ten. -/
def scale (i : RoundingInterval) (exponent : Int) : RoundingInterval :=
  let up := Nat.pow 10 exponent.toNat
  let down := Nat.pow 10 (-exponent).toNat
  { i with low := i.low * up, value := i.value * up, high := i.high * up,
           denominator := i.denominator * down }

/-- Whether a whole number lies in the interval. -/
def holds (i : RoundingInterval) (n : Nat) : Bool :=
  let scaled := n * i.denominator
  (i.low < scaled && scaled < i.high) || (i.closed && (scaled = i.low || scaled = i.high))

/-- The whole number in the interval that is nearest to its value; of two as near, the even one. -/
def nearest? (i : RoundingInterval) : Option Nat :=
  let below := i.value / i.denominator
  let above := below + 1
  match i.holds below, i.holds above with
  | false, false => none
  | true, false => some below
  | false, true => some above
  | true, true =>
    let rest := 2 * (i.value % i.denominator)
    if rest < i.denominator || (rest = i.denominator && below % 2 = 0) then some below
    else some above

/-- The exponent of ten of the value's first digit. -/
def magnitude (i : RoundingInterval) : Int :=
  if i.denominator ≤ i.value then ((Nat.toDigits 10 (i.value / i.denominator)).length : Int) - 1
  else
    let places := (Nat.toDigits 10 (i.denominator / i.value)).length
    if i.denominator ≤ i.value * Nat.pow 10 (places - 1) then 1 - (places : Int)
    else -(places : Int)

end RoundingInterval

/-- The decimal without zeros at its end. -/
def Scaled.trim (s : Scaled) : Scaled :=
  let zeros := ((Nat.toDigits 10 s.digits).reverse.takeWhile (· == '0')).length
  ⟨s.digits / Nat.pow 10 zeros, s.exponent + zeros⟩

/-- The shortest decimal that reads back as a number which is positive and finite. Seventeen digits
are always enough. -/
def shortest (bits : Nat) : Scaled :=
  let i := RoundingInterval.ofBits bits
  let magnitude := i.magnitude
  let found := (List.range 17).findSome? fun (n : Nat) =>
    let exponent := magnitude - (n : Int)
    (i.scale (-exponent)).nearest?.map fun digits => (⟨digits, exponent⟩ : Scaled)
  (found.getD ⟨0, 0⟩).trim

end JarRefit.Decimal
