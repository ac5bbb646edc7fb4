import JarRefit.Text.Digit

/-!
# Shell scripts

The text of a script as a list of simple commands: words, redirections and what joins one command to
the one before it. Of the shell's language these are all; a script with anything else is refused.
-/
namespace JarRefit.Shell

/-- What a dollar sign stands for. -/
inductive Parameter where
  /-- An argument of the script; number zero is its name. -/
  | argument (number : Nat)
  /-- Every argument but the name. -/
  | arguments
  | argumentCount
  /-- The number of the shell's process. -/
  | process
  /-- The status of the command before. -/
  | status
  /-- A variable, which is never set. -/
  | variable (name : String)
deriving DecidableEq, Repr

/-- A part of a word. What stands in quotation marks is never split. -/
inductive Piece where
  | text (text : String)
  | parameter (parameter : Parameter) (quoted : Bool)
deriving DecidableEq, Repr

abbrev Word := List Piece

/-- The two outputs of a command. -/
inductive Stream where
  | output
  | errors
deriving DecidableEq, Repr

/-- Where a redirection sends a stream. -/
inductive Target where
  | file (name : Word) (append : Bool)
  | stream (stream : Stream)
deriving DecidableEq, Repr

/-- When a command runs, given the status of the one before it. -/
inductive Joint where
  | always
  | onSuccess
  | onFailure
deriving DecidableEq, Repr

structure Command where
  joint : Joint
  words : List Word := []
  redirections : List (Stream × Target) := []
deriving DecidableEq, Repr

abbrev Script := List Command

/-! ### Words -/

def isNameChar (c : Char) : Bool :=
  c.isAlphanum || c == '_'

/-- Reads what follows a dollar sign, if it is a parameter. -/
def readParameter? (cs : List Char) : Option (Parameter × List Char) :=
  match cs with
  | '@' :: rest | '*' :: rest => some (.arguments, rest)
  | '#' :: rest => some (.argumentCount, rest)
  | '$' :: rest => some (.process, rest)
  | '?' :: rest => some (.status, rest)
  | '\x7b' :: rest =>
    let name := rest.takeWhile isNameChar
    match rest.dropWhile isNameChar with
    | '\x7d' :: rest =>
      match Text.number? 10 name with
      | some n => some (.argument n, rest)
      | none => some (.variable (String.ofList name), rest)
    | _ => none
  | c :: rest =>
    match Text.digit? 10 c with
    | some n => some (.argument n, rest)
    | none =>
      let name := (c :: rest).takeWhile isNameChar
      if name.isEmpty then none
      else some (.variable (String.ofList name), (c :: rest).dropWhile isNameChar)
  | [] => none

/-- Whether a character ends a word. -/
def endsWord (c : Char) : Bool :=
  c ∈ [' ', '\t', '\n', ';', '&', '|', '<', '>', '(', ')']

/-- Adds a character to the pieces read so far, the last one first. -/
def addChar (c : Char) : Word → Word
  | .text s :: rest => .text (s.push c) :: rest
  | pieces => .text (String.singleton c) :: pieces

/-- Where a word is being read. -/
inductive Quoting where
  | bare
  | single
  | double
deriving DecidableEq, Repr

/-- Reads the pieces of a word, the last one first. The fuel bounds the number of characters. -/
def readPieces : Nat → Quoting → Word → List Char → Option (Word × List Char)
  | 0, _, _, _ => none
  | fuel + 1, .single, done, cs =>
    match cs with
    | [] => none
    | '\'' :: rest => readPieces fuel .bare done rest
    | c :: rest => readPieces fuel .single (addChar c done) rest
  | fuel + 1, .double, done, cs =>
    match cs with
    | [] => none
    | '"' :: rest => readPieces fuel .bare done rest
    | '\\' :: '\n' :: rest => readPieces fuel .double done rest
    | '\\' :: c :: rest =>
      let before := if c ∈ ['$', '"', '\\', '\x60'] then done else addChar '\\' done
      readPieces fuel .double (addChar c before) rest
    | '$' :: rest =>
      match readParameter? rest with
      | some (p, rest) => readPieces fuel .double (.parameter p true :: done) rest
      | none => readPieces fuel .double (addChar '$' done) rest
    | c :: rest => if c = '\x60' then none else readPieces fuel .double (addChar c done) rest
  | fuel + 1, .bare, done, cs =>
    match cs with
    | [] => some (done, [])
    | '\'' :: rest => readPieces fuel .single (.text "" :: done) rest
    | '"' :: '"' :: rest => readPieces fuel .bare (.text "" :: done) rest
    | '"' :: rest => readPieces fuel .double done rest
    | '\\' :: '\n' :: rest => readPieces fuel .bare done rest
    | '\\' :: c :: rest => readPieces fuel .bare (addChar c done) rest
    | '$' :: rest =>
      match readParameter? rest with
      | some (p, rest) => readPieces fuel .bare (.parameter p false :: done) rest
      | none => readPieces fuel .bare (addChar '$' done) rest
    | c :: rest =>
      if endsWord c then some (done, c :: rest)
      else if c = '\x60' then none
      else readPieces fuel .bare (addChar c done) rest

/-- Reads a word. -/
def readWord (cs : List Char) : Option (Word × List Char) := do
  let (pieces, rest) ← readPieces (cs.length + 1) .bare [] cs
  if pieces.isEmpty then none else some (pieces.reverse, rest)

/-! ### Commands -/

def skipBlanks (cs : List Char) : List Char :=
  cs.dropWhile fun c => c == ' ' || c == '\t'

/-- The stream that a digit names. -/
def stream? : Char → Option Stream
  | '1' => some .output
  | '2' => some .errors
  | _ => none

/-- Reads what follows the sign of a redirection. -/
def readTarget (cs : List Char) : Option (Target × List Char) :=
  match cs with
  | '&' :: c :: rest => do some (.stream (← stream? c), rest)
  | '>' :: rest => do
    let (name, rest) ← readWord (skipBlanks rest)
    some (.file name true, rest)
  | rest => do
    let (name, rest) ← readWord (skipBlanks rest)
    some (.file name false, rest)

/-- The command with a redirection after those that it has. -/
def Command.redirect (c : Command) (stream : Stream) (target : Target) : Command :=
  { c with redirections := c.redirections ++ [(stream, target)] }

/-- Reads the commands of a script, the last one first. The fuel bounds the number of tokens. -/
def readCommands : Nat → Script → Command → List Char → Option Script
  | 0, _, _, _ => none
  | fuel + 1, done, current, cs =>
    let next (joint : Joint) (rest : List Char) : Option Script :=
      readCommands fuel (current :: done) { joint } rest
    match skipBlanks cs with
    | [] => some (current :: done)
    | '\n' :: rest | ';' :: rest => next .always rest
    | '&' :: '&' :: rest => next .onSuccess rest
    | '|' :: '|' :: rest => next .onFailure rest
    | '#' :: rest => readCommands fuel done current (rest.dropWhile (· != '\n'))
    | '>' :: rest => do
      let (target, rest) ← readTarget rest
      readCommands fuel done (current.redirect .output target) rest
    | '1' :: '>' :: rest => do
      let (target, rest) ← readTarget rest
      readCommands fuel done (current.redirect .output target) rest
    | '2' :: '>' :: rest => do
      let (target, rest) ← readTarget rest
      readCommands fuel done (current.redirect .errors target) rest
    | cs => do
      let (word, rest) ← readWord cs
      readCommands fuel done { current with words := current.words ++ [word] } rest

/-- The commands of a script, without empty ones. -/
def Script.parse? (text : String) : Option Script := do
  let cs := text.toList
  let commands ← readCommands (cs.length + 1) [] { joint := .always } cs
  some (commands.reverse.filter fun c => !(c.words.isEmpty && c.redirections.isEmpty))

end JarRefit.Shell
