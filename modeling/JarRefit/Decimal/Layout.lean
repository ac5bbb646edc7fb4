import JarRefit.Decimal.Shortest

/-!
# Decimal text

How a 64-bit number is written: its shortest decimal, with a point and at least one digit after it,
or in exponent form where a format says so.
-/
namespace JarRefit.Decimal

/-- The choices of a format. -/
structure Layout where
  /-- Whether a number is written without exponent, by the power of ten of its first digit. -/
  positional : Int → Bool
  /-- What stands between the digits and an exponent that is not negative. -/
  exponentMark : String
  notANumber : String
  infinity : String

/-- The digits with a point such that the first digit stands for the given power of ten. -/
def positionalText (digits : List Char) (power : Int) : List Char :=
  if power < 0 then '0' :: '.' :: (List.replicate (-power - 1).toNat '0' ++ digits)
  else
    let whole := power.toNat + 1
    let before := digits.take whole
    let after := digits.drop whole
    before ++ List.replicate (whole - before.length) '0' ++
      '.' :: (if after.isEmpty then ['0'] else after)

/-- The digits as a number between one and ten with an exponent. -/
def exponentText (mark : String) (digits : List Char) (power : Int) : List Char :=
  let point := if digits.length ≤ 1 then digits else digits.take 1 ++ '.' :: digits.drop 1
  let marked := if power < 0 then 'e' :: '-' :: Nat.toDigits 10 power.natAbs
    else mark.toList ++ Nat.toDigits 10 power.natAbs
  point ++ marked

/-- The text of a number. -/
def Layout.text (layout : Layout) (x : Float) : String :=
  let bits := x.toBits.toNat
  let magnitude := bits % 0x8000000000000000
  let sign := if bits = magnitude then "" else "-"
  if magnitude > 0x7FF0000000000000 then layout.notANumber
  else if magnitude = 0x7FF0000000000000 then sign ++ layout.infinity
  else if magnitude = 0 then sign ++ "0.0"
  else
    let decimal := shortest magnitude
    let digits := Nat.toDigits 10 decimal.digits
    let power := decimal.exponent + (digits.length : Int) - 1
    sign ++ String.ofList
      (if layout.positional power then positionalText digits power
        else exponentText layout.exponentMark digits power)

end JarRefit.Decimal
