/-!
# The nearest binary number

The 64-bit binary number that is nearest to a decimal.
-/
namespace JarRefit.Decimal

/-- The binary number nearest to digits times a power of ten. No decimal with its first digit at or
below the 400th place is told apart from zero, and none at or above the 400th power from
infinity. -/
def nearest (digits : Nat) (exponent : Int) : Float :=
  let power := exponent + (Nat.toDigits 10 digits).length
  if digits = 0 ∨ power < -400 then 0.0
  else if 400 < power then Float.ofScientific 1 false 400
  else Float.ofScientific digits (exponent < 0) exponent.natAbs

end JarRefit.Decimal
