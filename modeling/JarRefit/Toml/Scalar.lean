import JarRefit.Decimal.Nearest
import JarRefit.Toml.Moment

/-!
# TOML scalars

Values of one word: numbers, dates and times, booleans.
-/
namespace JarRefit.Toml

/-- Reads digits of a base, at least one. A single underscore may stand between two of them. -/
def readDigits (base : Nat) (cs : List Char) : Option (List Char × List Char) :=
  match cs with
  | [] => none
  | c :: rest =>
    if (Text.digit? base c).isNone then none
    else
      match rest with
      | '_' :: d :: rest' =>
        if (Text.digit? base d).isNone then none
        else (readDigits base (d :: rest')).map fun (ds, rest) => (c :: ds, rest)
      | '_' :: [] => none
      | d :: rest' =>
        if (Text.digit? base d).isNone then some ([c], d :: rest')
        else (readDigits base (d :: rest')).map fun (ds, rest) => (c :: ds, rest)
      | [] => some ([c], [])
termination_by cs.length

/-- Reads digits of which only a single one may be zero in front. -/
def readWhole : List Char → Option (List Char × List Char)
  | '0' :: rest => some (['0'], rest)
  | cs => readDigits 10 cs

/-- The value of an integer of at most 64 bits with a sign. -/
def integer? (n : Int) : Option Value :=
  if -0x8000000000000000 ≤ n ∧ n < 0x8000000000000000 then some (.integer n) else none

/-- Reads a number in a base after its mark. -/
def readBased (base : Nat) (cs : List Char) : Option (Value × List Char) := do
  let (digits, rest) ← readDigits base cs
  some (← integer? (← Text.number? base digits), rest)

/-- Reads the exponent of a decimal after its mark. -/
def readExponent (cs : List Char) : Option (Int × List Char) := do
  let (negative, cs) := match cs with
    | '+' :: rest => (false, rest)
    | '-' :: rest => (true, rest)
    | rest => (false, rest)
  let (digits, rest) ← readDigits 10 cs
  let n ← Text.number? 10 digits
  some (if negative then -n else n, rest)

/-- The value of a decimal. One that is too great has none; one that is too small to be finite is
negative infinity. -/
def decimal? (negative : Bool) (digits : List Char) (exponent : Int) : Option Value := do
  let x := Decimal.nearest (← Text.number? 10 digits) exponent
  if negative then some (.decimal (-x)) else if x.isInf then none else some (.decimal x)

/-- Reads an exponent, if one follows the digits of a decimal. -/
def readScale (negative : Bool) (digits : List Char) (places : Nat) (cs : List Char) :
    Option (Value × List Char) :=
  match cs with
  | 'e' :: rest | 'E' :: rest => do
    let (exponent, rest) ← readExponent rest
    some (← decimal? negative digits (exponent - places), rest)
  | rest => do some (← decimal? negative digits (-places), rest)

/-- Reads a word. -/
def readWord (value : Value) : List Char → List Char → Option (Value × List Char)
  | [], rest => some (value, rest)
  | w :: ws, c :: cs => if c = w then readWord value ws cs else none
  | _ :: _, [] => none

/-- Reads a number after its sign. -/
def readUnsigned (negative : Bool) (cs : List Char) : Option (Value × List Char) :=
  match cs with
  | 'i' :: rest =>
    let infinity : Float := 1.0 / 0.0
    readWord (.decimal (if negative then -infinity else infinity)) ['n', 'f'] rest
  | 'n' :: rest => readWord (.decimal (0.0 / 0.0)) ['a', 'n'] rest
  | cs => do
    let (whole, rest) ← readWhole cs
    match rest with
    | '.' :: rest => do
      let (fraction, rest) ← readDigits 10 rest
      readScale negative (whole ++ fraction) fraction.length rest
    | 'e' :: _ | 'E' :: _ => readScale negative whole 0 rest
    | rest => do
      let n ← Text.number? 10 whole
      some (← integer? (if negative then -n else n), rest)

/-- Reads a scalar that is no string. -/
def readScalar (cs : List Char) : Option (Value × List Char) :=
  if startsDate cs || startsTime cs then readMoment cs
  else
    match cs with
    | 't' :: rest => readWord (.boolean true) "rue".toList rest
    | 'f' :: rest => readWord (.boolean false) "alse".toList rest
    | '0' :: 'x' :: rest => readBased 16 rest
    | '0' :: 'o' :: rest => readBased 8 rest
    | '0' :: 'b' :: rest => readBased 2 rest
    | '+' :: rest => readUnsigned false rest
    | '-' :: rest => readUnsigned true rest
    | rest => readUnsigned false rest

end JarRefit.Toml
