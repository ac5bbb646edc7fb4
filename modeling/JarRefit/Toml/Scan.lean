import JarRefit.Text.Digit

/-!
# Tokens of TOML text

Blanks, comments, line ends, strings and keys. A reader takes the text and gives what it reads and
the text after it, or nothing if the text does not follow the grammar.
-/
namespace JarRefit.Toml

/-! ### Lines -/

def isBlank (c : Char) : Bool :=
  c == ' ' || c == '\t'

def skipBlanks (cs : List Char) : List Char :=
  cs.dropWhile isBlank

/-- Whether a character may stand in a comment: no control character but the tab. -/
def isPlain (c : Char) : Bool :=
  c == '\t' || (' ' ≤ c && c != '\x7f')

/-- The text after a line end, which is a line feed or a carriage return and a line feed. -/
def lineEnd? : List Char → Option (List Char)
  | '\n' :: rest => some rest
  | '\r' :: '\n' :: rest => some rest
  | _ => none

def skipComment : List Char → List Char
  | '#' :: rest => rest.dropWhile isPlain
  | cs => cs

/-- The text of the next line, if nothing but blanks and a comment is left of this one. -/
def endLine? (cs : List Char) : Option (List Char) :=
  match skipComment (skipBlanks cs) with
  | [] => some []
  | rest => lineEnd? rest

/-- Skips blanks, line ends and comments. The flag tells whether the text starts inside a
comment. -/
def skipGaps : Bool → List Char → List Char
  | _, [] => []
  | _, '\n' :: cs => skipGaps false cs
  | _, '\r' :: '\n' :: cs => skipGaps false cs
  | true, c :: cs => if isPlain c then skipGaps true cs else c :: cs
  | false, c :: cs =>
    if isBlank c then skipGaps false cs else if c = '#' then skipGaps true cs else c :: cs

/-- Skips blanks and line ends. -/
def skipEmptyLines : List Char → List Char
  | '\n' :: cs => skipEmptyLines cs
  | '\r' :: '\n' :: cs => skipEmptyLines cs
  | c :: cs => if isBlank c then skipEmptyLines cs else c :: cs
  | [] => []

/-! ### Strings -/

/-- Reads the character whose number is given by so many digits. -/
def readCodePoint (digits : Nat) (cs : List Char) : Option (Char × List Char) := do
  let number ← Text.number? 16 (cs.take digits)
  if (cs.take digits).length = digits ∧ number.isValidChar then
    some (Char.ofNat number, cs.drop digits)
  else none

/-- Reads an escape after its backslash. -/
def readEscape : List Char → Option (Char × List Char)
  | 'b' :: rest => some ('\x08', rest)
  | 't' :: rest => some ('\t', rest)
  | 'n' :: rest => some ('\n', rest)
  | 'f' :: rest => some ('\x0c', rest)
  | 'r' :: rest => some ('\r', rest)
  | '"' :: rest => some ('"', rest)
  | '\\' :: rest => some ('\\', rest)
  | 'u' :: rest => readCodePoint 4 rest
  | 'U' :: rest => readCodePoint 8 rest
  | _ => none

/-- Reads a string on one line after its quotation mark. The fuel bounds the length of the text. -/
def readBasic : Nat → List Char → List Char → Option (String × List Char)
  | 0, _, _ => none
  | fuel + 1, done, cs =>
    match cs with
    | [] => none
    | '"' :: rest => some (String.ofList done.reverse, rest)
    | '\\' :: rest => do
      let (c, rest) ← readEscape rest
      readBasic fuel (c :: done) rest
    | c :: rest => if isPlain c then readBasic fuel (c :: done) rest else none

/-- A run of quotation marks inside a string over several lines: three close it, and up to two more
in front of those belong to it. -/
inductive QuoteRun where
  | inside (count : Nat)
  | closing (before : Nat)
  | tooLong

def QuoteRun.ofLength (n : Nat) : QuoteRun :=
  if n < 3 then .inside n else if n ≤ 5 then .closing (n - 3) else .tooLong

/-- The number of marks at the front of a text. -/
def countMarks (mark : Char) (cs : List Char) : Nat :=
  (cs.takeWhile (· == mark)).length

/-- The text after a backslash that only a line end follows, which is skipped with everything blank
after it. -/
def continuation? (cs : List Char) : Option (List Char) :=
  (lineEnd? (skipBlanks cs)).map skipEmptyLines

/-- Reads a string over several lines after its quotation marks. With `escapes`, a backslash starts
an escape. The fuel bounds the length of the text. -/
def readLong (mark : Char) (escapes : Bool) :
    Nat → List Char → List Char → Option (String × List Char)
  | 0, _, _ => none
  | fuel + 1, done, cs =>
    match cs with
    | [] => none
    | '\n' :: rest => readLong mark escapes fuel ('\n' :: done) rest
    | '\r' :: '\n' :: rest => readLong mark escapes fuel ('\n' :: done) rest
    | c :: rest =>
      if c = mark then
        let count := countMarks mark cs
        match QuoteRun.ofLength count with
        | .inside n => readLong mark escapes fuel (List.replicate n mark ++ done) (cs.drop count)
        | .closing n =>
          some (String.ofList (List.replicate n mark ++ done).reverse, cs.drop count)
        | .tooLong => none
      else if c = '\\' ∧ escapes then
        match continuation? rest with
        | some rest => readLong mark escapes fuel done rest
        | none => do
          let (c, rest) ← readEscape rest
          readLong mark escapes fuel (c :: done) rest
      else if isPlain c then readLong mark escapes fuel (c :: done) rest
      else none

/-- Reads a string on one line that has no escapes, after its quotation mark. -/
def readLiteral (cs : List Char) : Option (String × List Char) :=
  let plain := fun c => isPlain c && c != '\''
  match cs.dropWhile plain with
  | '\'' :: rest => some (String.ofList (cs.takeWhile plain), rest)
  | _ => none

/-- Drops the line end that may stand right after the marks of a string over several lines. -/
def dropLineEnd (cs : List Char) : List Char :=
  (lineEnd? cs).getD cs

/-- Reads a string of any of the four kinds. The fuel bounds the length of the text. -/
def readString (fuel : Nat) : List Char → Option (String × List Char)
  | '"' :: '"' :: '"' :: rest => readLong '"' true fuel [] (dropLineEnd rest)
  | '"' :: rest => readBasic fuel [] rest
  | '\'' :: '\'' :: '\'' :: rest => readLong '\'' false fuel [] (dropLineEnd rest)
  | '\'' :: rest => readLiteral rest
  | _ => none

/-! ### Keys -/

def isBareKeyChar (c : Char) : Bool :=
  c.isAlphanum || c == '-' || c == '_'

/-- Reads one part of a key. The fuel bounds the length of the text. -/
def readKeyPart (fuel : Nat) : List Char → Option (String × List Char)
  | '"' :: rest => readBasic fuel [] rest
  | '\'' :: rest => readLiteral rest
  | cs =>
    let bare := cs.takeWhile isBareKeyChar
    if bare.isEmpty then none else some (String.ofList bare, cs.dropWhile isBareKeyChar)

/-- Reads the parts of a key, which are joined by points, up to a greatest number of them. The fuel
bounds the length of the text. -/
def readKeyParts (fuel : Nat) : Nat → List String → List Char → Option (List String × List Char)
  | 0, _, _ => none
  | left + 1, done, cs => do
    let (part, rest) ← readKeyPart fuel (skipBlanks cs)
    match skipBlanks rest with
    | '.' :: rest => readKeyParts fuel left (part :: done) rest
    | rest => some ((part :: done).reverse, rest)

/-- The greatest number of parts of a key, and of containers inside each other. -/
def maxDepth : Nat := 79

/-- Reads a key: the parts before the last one, and the last one. The fuel bounds the length of the
text. -/
def readKey (fuel : Nat) (cs : List Char) : Option ((List String × String) × List Char) := do
  let (parts, rest) ← readKeyParts fuel maxDepth [] cs
  some ((parts.dropLast, ← parts.getLast?), rest)

end JarRefit.Toml
