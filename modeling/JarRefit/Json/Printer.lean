import JarRefit.Json.Value

/-!
# Writing JSON text

Values over several lines: each item and member on a line of its own, two spaces deeper than what
holds it, and empty containers as a pair of brackets.
-/
namespace JarRefit.Json

/-- A digit in base sixteen. -/
def hexDigitOf (n : Nat) : Char :=
  (Nat.toDigits 16 n).headD '0'

/-- The characters that a character of a string is written as. -/
def writeChar (c : Char) : List Char :=
  if c = '"' then ['\\', '"']
  else if c = '\\' then ['\\', '\\']
  else if c = '\x08' then ['\\', 'b']
  else if c = '\x0c' then ['\\', 'f']
  else if c = '\n' then ['\\', 'n']
  else if c = '\r' then ['\\', 'r']
  else if c = '\t' then ['\\', 't']
  else if c < ' ' then
    ['\\', 'u', '0', '0', hexDigitOf (c.toNat / 16), hexDigitOf (c.toNat % 16)]
  else [c]

/-- A string between quotation marks. -/
def writeString (s : String) : List Char :=
  '"' :: (s.toList.flatMap writeChar ++ ['"'])

/-- A new line at a depth. -/
def newLine (depth : Nat) : List Char :=
  '\n' :: List.replicate (2 * depth) ' '

/-- The parts between brackets, each on a line of its own. -/
def writeBlock (opening closing : Char) (depth : Nat) (parts : List (List Char)) : List Char :=
  if parts.isEmpty then [opening, closing]
  else
    let line := newLine (depth + 1)
    opening :: line ++ (parts.intersperse (',' :: line)).flatten ++ newLine depth ++ [closing]

mutual

/-- A value at a depth. -/
def writeValue (depth : Nat) : Value → List Char
  | .null => "null".toList
  | .boolean b => if b then "true".toList else "false".toList
  | .number n => n.text.toList
  | .string s => writeString s
  | .array vs => writeBlock '[' ']' depth (writeItems (depth + 1) vs)
  | .object ms => writeBlock '\x7b' '\x7d' depth (writeMembers (depth + 1) ms)

/-- Items at a depth. -/
def writeItems (depth : Nat) : List Value → List (List Char)
  | [] => []
  | v :: vs => writeValue depth v :: writeItems depth vs

/-- Members at a depth. -/
def writeMembers (depth : Nat) : List (String × Value) → List (List Char)
  | [] => []
  | (name, v) :: ms =>
    (writeString name ++ ':' :: ' ' :: writeValue depth v) :: writeMembers depth ms

end

/-- The text of a value. -/
def Value.pretty (v : Value) : String :=
  String.ofList (writeValue 0 v)

end JarRefit.Json
