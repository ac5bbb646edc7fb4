import JarRefit.Json.Reading
import JarRefit.Text.Digit

/-!
# Scalars in JSON text

Numbers and strings, character by character. A number is read into a significand of at most 64
bits and a power of ten, which are then multiplied as 64-bit binary numbers: a decimal that is
written with more digits than a significand holds may come out one step away from the nearest one.
-/
namespace JarRefit.Json

/-- The digits at the front of a text, and the rest. -/
def takeDigits (cs : List Char) : List Char × List Char :=
  (cs.takeWhile Char.isDigit, cs.dropWhile Char.isDigit)

/-- The greatest significand. -/
def maxSignificand : Nat := 0xFFFFFFFFFFFFFFFF

/-- Reads digits into a significand as long as it fits, and gives the digits from the first one on
that does not fit. -/
def takeSignificand (significand : Nat) : List Char → Nat × List Char
  | [] => (significand, [])
  | c :: cs =>
    match Text.digit? 10 c with
    | none => (significand, c :: cs)
    | some d =>
      if significand * 10 + d ≤ maxSignificand then takeSignificand (significand * 10 + d) cs
      else (significand, c :: cs)

/-- A power of ten as a binary number. -/
def powerOfTen (exponent : Nat) : Float :=
  Float.ofScientific 1 false exponent

/-- The binary number for a significand times a power of ten, if it is not too great. A power below
the least one in reach is divided off in steps; two steps leave nothing of any significand. -/
def decimalOf? (significand : Nat) (exponent : Int) : Option Float :=
  let start := significand.toUInt64.toFloat
  if 0 ≤ exponent then
    if exponent ≤ 308 then
      let x := start * powerOfTen exponent.toNat
      if x.isInf then none else some x
    else if significand = 0 then some start else none
  else if -308 ≤ exponent then some (start / powerOfTen exponent.natAbs)
  else if -616 ≤ exponent then
    some (start / powerOfTen 308 / powerOfTen (exponent + 308).natAbs)
  else some 0.0

/-- A number with its sign. -/
def signed (negative : Bool) (x : Float) : Float :=
  if negative then -x else x

/-- The decimal of a significand times a power of ten. -/
def readDecimal (negative : Bool) (significand : Nat) (exponent : Int) (rest : List Char) :
    Except Fault (Number × List Char) :=
  match decimalOf? significand exponent with
  | some x => .ok (.decimal (signed negative x), rest)
  | none => .error .malformed

/-- Reads what follows the `e` of a number. -/
def readExponent (negative : Bool) (significand : Nat) (exponent : Int) (cs : List Char) :
    Except Fault (Number × List Char) :=
  let (down, cs) := match cs with
    | '+' :: cs => (false, cs)
    | '-' :: cs => (true, cs)
    | cs => (false, cs)
  match cs, takeDigits cs with
  | [], _ => .error .ended
  | _, ([], _) => .error .malformed
  | _, (digits, rest) =>
    let size := (Text.number? 10 digits).getD 0
    if size < 0x80000000 then
      readDecimal negative significand (if down then exponent - size else exponent + size) rest
    else if significand ≠ 0 ∧ ¬ down then .error .malformed
    else .ok (.decimal (signed negative 0.0), rest)

/-- Reads what follows the digits of a decimal. -/
def readScale (negative : Bool) (significand : Nat) (exponent : Int) (cs : List Char) :
    Except Fault (Number × List Char) :=
  match cs with
  | 'e' :: rest | 'E' :: rest => readExponent negative significand exponent rest
  | rest => readDecimal negative significand exponent rest

/-- Reads what follows the point of a decimal. Digits that do not fit into the significand are
dropped. -/
def readFraction (negative : Bool) (significand : Nat) (exponent : Int) (cs : List Char) :
    Except Fault (Number × List Char) :=
  match cs, takeDigits cs with
  | [], _ => .error .ended
  | _, ([], _) => .error .malformed
  | _, (digits, rest) =>
    let (significand, dropped) := takeSignificand significand digits
    let places := digits.length - dropped.length
    readScale negative significand (exponent - places) rest

/-- Reads what follows the digits before a point, `dropped` of which did not fit into the
significand. -/
def readAfterInteger (negative : Bool) (significand dropped : Nat) (cs : List Char) :
    Except Fault (Number × List Char) :=
  match cs with
  | '.' :: rest => readFraction negative significand dropped rest
  | 'e' :: rest | 'E' :: rest => readExponent negative significand dropped rest
  | rest =>
    if dropped ≠ 0 then readDecimal negative significand dropped rest
    else if ¬ negative then .ok (.integer significand, rest)
    else if significand = 0 ∨ 0x8000000000000000 < significand then
      .ok (.decimal (-significand.toUInt64.toFloat), rest)
    else .ok (.integer (-significand), rest)

/-- Reads a number after its sign. -/
def readNumber (negative : Bool) (cs : List Char) : Except Fault (Number × List Char) :=
  match cs, takeDigits cs with
  | [], _ => .error .ended
  | _, ([], _) => .error .malformed
  | _, ('0' :: _ :: _, _) => .error .malformed
  | _, (digits, rest) =>
    let (significand, dropped) := takeSignificand 0 digits
    readAfterInteger negative significand dropped.length rest

/-! ### Strings -/

/-- Reads the four digits of an escape. With fewer than four bytes left, the text ends too early. -/
def readUnit (cs : List Char) : Except Fault (Nat × List Char) :=
  match cs with
  | a :: b :: c :: d :: rest =>
    match Text.number? 16 [a, b, c, d] with
    | some unit => .ok (unit, rest)
    | none => .error .malformed
  | cs => if 4 ≤ (String.ofList cs).utf8ByteSize then .error .malformed else .error .ended

def isHighSurrogate (unit : Nat) : Bool := 0xD800 ≤ unit && unit ≤ 0xDBFF

def isLowSurrogate (unit : Nat) : Bool := 0xDC00 ≤ unit && unit ≤ 0xDFFF

/-- Reads the character of an escape by number; a character beyond 16 bits takes two escapes. -/
def readCodePoint (cs : List Char) : Except Fault (Char × List Char) := do
  let (unit, rest) ← readUnit cs
  if isLowSurrogate unit then throw .malformed
  if !isHighSurrogate unit then return (Char.ofNat unit, rest)
  match rest with
  | '\\' :: 'u' :: rest =>
    let (low, rest) ← readUnit rest
    if isLowSurrogate low then
      return (Char.ofNat ((unit - 0xD800) * 0x400 + (low - 0xDC00) + 0x10000), rest)
    else throw .malformed
  | [] | ['\\'] => throw .ended
  | _ => throw .malformed

/-- The character that a letter after a backslash stands for. -/
def escaped? : Char → Option Char
  | '"' => some '"'
  | '\\' => some '\\'
  | '/' => some '/'
  | 'b' => some '\x08'
  | 'f' => some '\x0c'
  | 'n' => some '\n'
  | 'r' => some '\r'
  | 't' => some '\t'
  | _ => none

/-- Reads the characters of a string after those that are done, the last one first. The fuel bounds
the length of the text. -/
def readCharacters : Nat → List Char → List Char → Except Fault (String × List Char)
  | 0, _, _ => .error .ended
  | fuel + 1, done, cs =>
    match cs with
    | [] | ['\\'] => .error .ended
    | '"' :: rest => .ok (String.ofList done.reverse, rest)
    | '\\' :: 'u' :: rest =>
      match readCodePoint rest with
      | .ok (c, rest) => readCharacters fuel (c :: done) rest
      | .error f => .error f
    | '\\' :: c :: rest =>
      match escaped? c with
      | some c => readCharacters fuel (c :: done) rest
      | none => .error .malformed
    | c :: rest => if c < ' ' then .error .malformed else readCharacters fuel (c :: done) rest

/-- Reads a string after its first quotation mark. -/
def readString (fuel : Nat) (cs : List Char) : Except Fault (String × List Char) :=
  readCharacters fuel [] cs

end JarRefit.Json
