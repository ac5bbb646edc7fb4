import JarRefit.Toml.Scalar
import JarRefit.Toml.Table

/-!
# Reading TOML documents

`parse?` gives the entries of a document. A document is read into sections, of which the tables are
then built. The fuel of a reader bounds the length of its text: every item, assignment and line
makes the text shorter.
-/
namespace JarRefit.Toml

/-- Reads the items of an array after its bracket. A comma may stand after the last one. -/
def readItems (value : List Char → Option (Value × List Char)) :
    Nat → List Value → List Char → Option (Value × List Char)
  | 0, _, _ => none
  | fuel + 1, done, cs =>
    match skipGaps false cs with
    | ']' :: rest => some (.array done.reverse, rest)
    | cs => do
      let (v, rest) ← value cs
      match skipGaps false rest with
      | ',' :: rest => readItems value fuel (v :: done) rest
      | ']' :: rest => some (.array (v :: done).reverse, rest)
      | _ => none

/-- Reads a key, the equals sign and the value. -/
def readAssignment (value : List Char → Option (Value × List Char)) (fuel : Nat) (cs : List Char) :
    Option (Assignment × List Char) := do
  let ((path, key), rest) ← readKey fuel cs
  let rest ← readMark '=' rest
  let (value, rest) ← value (skipBlanks rest)
  some ({ path, key, value }, rest)

/-- Reads the assignments of a table on one line after its brace, of which there is one at least. -/
def readAssignments (value : List Char → Option (Value × List Char)) :
    Nat → List Assignment → List Char → Option (List Assignment × List Char)
  | 0, _, _ => none
  | fuel + 1, done, cs => do
    let (a, rest) ← readAssignment value fuel cs
    match skipBlanks rest with
    | ',' :: rest => readAssignments value fuel (a :: done) rest
    | '\x7d' :: rest => some ((a :: done).reverse, rest)
    | _ => none

/-- Reads a table on one line after its brace. -/
def readInlineTable (value : List Char → Option (Value × List Char)) (fuel : Nat) (cs : List Char) :
    Option (Value × List Char) :=
  match skipBlanks cs with
  | '\x7d' :: rest => some (.table [], rest)
  | cs => do
    let (assignments, rest) ← readAssignments value fuel [] cs
    some (.table (← Entries.ofAssignments? assignments), rest)

/-- Reads a value; `depth` tells how many containers may still open. -/
def readValue (fuel : Nat) : Nat → List Char → Option (Value × List Char)
  | depth, cs =>
    match cs with
    | '"' :: _ | '\'' :: _ => (readString fuel cs).map fun (s, rest) => (.string s, rest)
    | '[' :: rest =>
      match depth with
      | 0 => none
      | depth + 1 => readItems (readValue fuel depth) fuel [] rest
    | '\x7b' :: rest =>
      match depth with
      | 0 => none
      | depth + 1 => readInlineTable (readValue fuel depth) fuel rest
    | cs => readScalar cs

/-! ### Sections -/

/-- Reads a header after its brackets, up to the brackets that close it. -/
def readHeader (make : List String → String → Header) (closing : List Char) (fuel : Nat)
    (cs : List Char) : Option (Header × List Char) := do
  let ((path, key), rest) ← readKey fuel cs
  if closing.isPrefixOf rest then some (make path key, rest.drop closing.length) else none

/-- A section with its assignments in the order of the text. -/
def closeSection (header : Header) (done : List Assignment) : Section :=
  ⟨header, done.reverse⟩

/-- Reads the sections of a document. -/
def readSections :
    Nat → List Section → Header → List Assignment → List Char → Option (List Section)
  | 0, _, _, _, _ => none
  | fuel + 1, sections, header, done, cs =>
    match skipBlanks cs with
    | [] => some (closeSection header done :: sections).reverse
    | '[' :: '[' :: rest => do
      let (next, rest) ← readHeader .arrayItem [']', ']'] fuel rest
      readSections fuel (closeSection header done :: sections) next [] (← endLine? rest)
    | '[' :: rest => do
      let (next, rest) ← readHeader .table [']'] fuel rest
      readSections fuel (closeSection header done :: sections) next [] (← endLine? rest)
    | cs =>
      match endLine? cs with
      | some rest => readSections fuel sections header done rest
      | none => do
        let (a, rest) ← readAssignment (readValue fuel maxDepth) fuel cs
        readSections fuel sections header (a :: done) (← endLine? rest)

/-- The entries of a document. A byte order mark may stand in front. -/
def parse? (text : String) : Option Entries := do
  let cs := match text.toList with
    | '\uFEFF' :: rest => rest
    | cs => cs
  Entries.ofSections? (← readSections (cs.length + 1) [] .root [] cs)

end JarRefit.Toml
