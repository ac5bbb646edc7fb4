import JarRefit.Json.Scan

/-!
# Reading JSON text

`read` gives the reading of a text. Values nest at most `maxDepth` deep.
-/
namespace JarRefit.Json

def isSpace (c : Char) : Bool :=
  c == ' ' || c == '\n' || c == '\t' || c == '\r'

def skipSpace (cs : List Char) : List Char :=
  cs.dropWhile isSpace

/-- A reading and the text after it; nothing is left to read after a fault. -/
abbrev Outcome := Reading × Option (List Char)

namespace Outcome

def fault (f : Fault) : Outcome := (.fault f, none)

/-- The outcome of reading a scalar. -/
def ofScalar {α : Type} (make : α → Reading) : Except Fault (α × List Char) → Outcome
  | .ok (a, rest) => (make a, some rest)
  | .error f => fault f

end Outcome

/-- Reads the letters of a word. -/
def readWord (reading : Reading) : List Char → List Char → Outcome
  | [], rest => (reading, some rest)
  | _ :: _, [] => .fault .ended
  | w :: ws, c :: cs => if c = w then readWord reading ws cs else .fault .malformed

/-- Where the next item or member of a container stands. -/
inductive Next where
  | item (rest : List Char)
  | close (rest : List Char)
  | stop (fault : Fault)

/-- Finds the next item or member before a closing bracket. A comma stands before each but the
first. -/
def next (closing : Char) (first : Bool) (cs : List Char) : Next :=
  match skipSpace cs with
  | [] => .stop .ended
  | c :: rest =>
    if c = closing then .close rest
    else if first then .item (c :: rest)
    else if c ≠ ',' then .stop .malformed
    else
      match skipSpace rest with
      | [] => .stop .ended
      | d :: rest => if d = closing then .stop .malformed else .item (d :: rest)

/-- Reads the items of an array after its bracket. The fuel bounds their number. -/
def readItems (value : List Char → Outcome) :
    Nat → Bool → List Reading → List Char → Outcome
  | 0, _, done, _ => (.array done.reverse (some .ended), none)
  | fuel + 1, first, done, cs =>
    match next ']' first cs with
    | .close rest => (.array done.reverse none, some rest)
    | .stop f => (.array done.reverse (some f), none)
    | .item cs =>
      match value cs with
      | (r, none) => (.array (r :: done).reverse none, none)
      | (r, some rest) => readItems value fuel false (r :: done) rest

/-- Reads the value of a member after its name. -/
def readMemberValue (value : List Char → Outcome) (cs : List Char) : Outcome :=
  match skipSpace cs with
  | [] => .fault .ended
  | ':' :: rest => value rest
  | _ => .fault .malformed

/-- Reads the members of an object after its brace. The fuel bounds the length of the text, which
each member makes shorter. -/
def readMembers (value : List Char → Outcome) :
    Nat → Bool → List (String × Reading) → List Char → Outcome
  | 0, _, done, _ => (.object done.reverse (some .ended), none)
  | fuel + 1, first, done, cs =>
    match next '\x7d' first cs with
    | .close rest => (.object done.reverse none, some rest)
    | .stop f => (.object done.reverse (some f), none)
    | .item ('"' :: cs) =>
      match readString fuel cs with
      | .error f => (.object done.reverse (some f), none)
      | .ok (name, rest) =>
        match readMemberValue value rest with
        | (r, none) => (.object ((name, r) :: done).reverse none, none)
        | (r, some rest) => readMembers value fuel false ((name, r) :: done) rest
    | .item _ => (.object done.reverse (some .malformed), none)

/-- How deep values nest. -/
def maxDepth : Nat := 127

/-- Reads a value of a text whose length the fuel bounds; `depth` tells how many containers may
still open. -/
def readValue (fuel : Nat) : Nat → List Char → Outcome
  | depth, cs =>
    match skipSpace cs with
    | [] => .fault .ended
    | 'n' :: rest => readWord .null "ull".toList rest
    | 't' :: rest => readWord (.boolean true) "rue".toList rest
    | 'f' :: rest => readWord (.boolean false) "alse".toList rest
    | '"' :: rest => .ofScalar .string (readString fuel rest)
    | '-' :: rest => .ofScalar .number (readNumber true rest)
    | '[' :: rest =>
      match depth with
      | 0 => .fault .malformed
      | depth + 1 => readItems (readValue fuel depth) fuel true [] rest
    | '\x7b' :: rest =>
      match depth with
      | 0 => .fault .malformed
      | depth + 1 => readMembers (readValue fuel depth) fuel true [] rest
    | c :: rest =>
      if c.isDigit then .ofScalar .number (readNumber false (c :: rest)) else .fault .malformed

/-- Reads a text that holds one value, and makes something of it. What follows the value is looked
at last. -/
def readText {α : Type} (make : Reading → Except Fault α) (text : String) : Except Fault α := do
  let cs := text.toList
  let (reading, rest) := readValue (cs.length + 1) maxDepth cs
  let a ← make reading
  match rest with
  | none => return a
  | some rest => if (skipSpace rest).isEmpty then return a else throw .malformed

end JarRefit.Json
