import JarRefit.Text.Split

/-!
# Generic signatures

The type of a class, field or method with its type arguments, as a tree. `Signature.parse?` reads
a signature, `Signature.print` writes it, and `Signature.rename` gives the classes in it new names.
A nested class is written as its outer class followed by a segment of its own, so its segment is
what its new name adds to the new name of the class around it.
-/
namespace JarRefit.Naming

mutual

/-- One type. -/
inductive TypeSig where
  /-- A base type, by its letter. -/
  | base (letter : Char)
  | variable (name : String)
  | array (element : TypeSig)
  /-- A class with its type arguments, and the nested classes after it. -/
  | cls (name : String) (args : TypeArgs) (inner : InnerSegments)

/-- The type arguments of a class, if any are written. -/
inductive TypeArgs where
  | absent
  | present (args : TypeArgList)

inductive TypeArgList where
  | nil
  /-- The argument `*`. -/
  | any (rest : TypeArgList)
  /-- A type, perhaps behind a `+` or a `-`. -/
  | type (bound : Option Char) (t : TypeSig) (rest : TypeArgList)

/-- The nested classes after a class, each behind a dot. -/
inductive InnerSegments where
  | nil
  | cons (name : String) (args : TypeArgs) (rest : InnerSegments)

end

/-- One part of a signature after its type parameters. -/
inductive SignaturePart where
  /-- A parenthesis, a `^` or the return type `V`. -/
  | mark (c : Char)
  | type (t : TypeSig)

/-- A type parameter: its name, and its bounds, where the first one may be left out. -/
structure TypeParameter where
  name : String
  bounds : List (Option TypeSig)

/-- A signature: its type parameters, if any are written, and its parts. -/
structure Signature where
  parameters : Option (List TypeParameter)
  parts : List SignaturePart

/-! ### Printing

Each part is written in front of a text, so that every character is written once. -/

mutual

def TypeSig.print : TypeSig → List Char → List Char
  | .base letter, cs => letter :: cs
  | .variable name, cs => 'T' :: (name.toList ++ ';' :: cs)
  | .array element, cs => '[' :: element.print cs
  | .cls name args inner, cs => 'L' :: (name.toList ++ args.print (inner.print (';' :: cs)))

def TypeArgs.print : TypeArgs → List Char → List Char
  | .absent, cs => cs
  | .present args, cs => '<' :: args.print ('>' :: cs)

def TypeArgList.print : TypeArgList → List Char → List Char
  | .nil, cs => cs
  | .any rest, cs => '*' :: rest.print cs
  | .type bound t rest, cs => bound.toList ++ t.print (rest.print cs)

def InnerSegments.print : InnerSegments → List Char → List Char
  | .nil, cs => cs
  | .cons name args rest, cs => '.' :: (name.toList ++ args.print (rest.print cs))

end

def SignaturePart.print : SignaturePart → List Char → List Char
  | .mark c, cs => c :: cs
  | .type t, cs => t.print cs

/-- The name and the bounds of a type parameter, each behind a colon. -/
def TypeParameter.print (p : TypeParameter) (cs : List Char) : List Char :=
  p.name.toList ++ p.bounds.foldr (fun bound cs => ':' :: bound.elim cs (·.print cs)) cs

def Signature.print (s : Signature) : List Char :=
  let parts := s.parts.foldr SignaturePart.print []
  match s.parameters with
  | none => parts
  | some ps => '<' :: ps.foldr TypeParameter.print ('>' :: parts)

/-! ### Renaming -/

mutual

/-- The type with its classes renamed. -/
def TypeSig.rename (f : String → String) : TypeSig → TypeSig
  | .base letter => .base letter
  | .variable name => .variable name
  | .array element => .array (element.rename f)
  | .cls name args inner => .cls (f name) (args.rename f) (inner.rename f name (f name))

def TypeArgs.rename (f : String → String) : TypeArgs → TypeArgs
  | .absent => .absent
  | .present args => .present (args.rename f)

def TypeArgList.rename (f : String → String) : TypeArgList → TypeArgList
  | .nil => .nil
  | .any rest => .any (rest.rename f)
  | .type bound t rest => .type bound (t.rename f) (rest.rename f)

/-- The segments after a class whose old and new names are given: what the new name of a nested
class adds to the new name of the class around it, or the old segment where it does not add to
it. -/
def InnerSegments.rename (f : String → String) (old new : String) : InnerSegments → InnerSegments
  | .nil => .nil
  | .cons name args rest =>
    let nested := old ++ "$" ++ name
    let segment :=
      match Text.dropFront? (new ++ "$").toList (f nested).toList with
      | some simple => String.ofList simple
      | none => name
    .cons segment (args.rename f) (rest.rename f nested (f nested))

end

def SignaturePart.rename (f : String → String) : SignaturePart → SignaturePart
  | .mark c => .mark c
  | .type t => .type (t.rename f)

def TypeParameter.rename (f : String → String) (p : TypeParameter) : TypeParameter :=
  { p with bounds := p.bounds.map (·.map (·.rename f)) }

/-- The signature with its classes renamed. -/
def Signature.renameTree (f : String → String) (s : Signature) : Signature :=
  ⟨s.parameters.map (·.map (·.rename f)), s.parts.map (·.rename f)⟩

/-! ### Parsing -/

namespace Signature

/-- A name that ends before one of the stops: not empty, and with a stop after it. -/
def identifier? (stops : List Char) (cs : List Char) : Option (String × List Char) :=
  let name := cs.takeWhile (!stops.contains ·)
  let rest := cs.dropWhile (!stops.contains ·)
  if name.isEmpty || rest.isEmpty then none else some (String.ofList name, rest)

/-- The characters that end a segment of a class name. -/
def nameStops : List Char := ['<', '.', ';']

/-- The letters of the base types. -/
def baseLetters : List Char := ['B', 'C', 'D', 'F', 'I', 'J', 'S', 'Z']

mutual

/-- One type at the front of the text. -/
def type? : Nat → List Char → Option (TypeSig × List Char)
  | 0, _ => none
  | _, [] => none
  | fuel + 1, c :: cs =>
    match c with
    | 'L' => do
      let (name, cs) ← identifier? nameStops cs
      let (args, cs) ← args? fuel cs
      let (inner, cs) ← inner? fuel cs
      match cs with
      | ';' :: cs => some (.cls name args inner, cs)
      | _ => none
    | 'T' => do
      let (name, cs) ← Text.cut? ';' cs
      some (.variable (String.ofList name), cs)
    | '[' => do
      let (element, cs) ← type? fuel cs
      some (.array element, cs)
    | c => if baseLetters.contains c then some (.base c, cs) else none

/-- The type arguments at the front of a text that does not end there. -/
def args? : Nat → List Char → Option (TypeArgs × List Char)
  | 0, _ => none
  | _, [] => none
  | fuel + 1, c :: cs =>
    match c with
    | '<' => do
      let (args, cs) ← argList? fuel cs
      some (.present args, cs)
    | c => some (.absent, c :: cs)

/-- The type arguments up to the closing bracket, which is taken too. -/
def argList? : Nat → List Char → Option (TypeArgList × List Char)
  | 0, _ => none
  | _, [] => none
  | fuel + 1, c :: cs =>
    match c with
    | '>' => some (.nil, cs)
    | '*' => do
      let (rest, cs) ← argList? fuel cs
      some (.any rest, cs)
    | '+' | '-' => do
      let (t, cs) ← type? fuel cs
      let (rest, cs) ← argList? fuel cs
      some (.type (some c) t rest, cs)
    | c => do
      let (t, cs) ← type? fuel (c :: cs)
      let (rest, cs) ← argList? fuel cs
      some (.type none t rest, cs)

/-- The nested classes at the front of the text. -/
def inner? : Nat → List Char → Option (InnerSegments × List Char)
  | 0, _ => none
  | _, [] => none
  | fuel + 1, c :: cs =>
    match c with
    | '.' => do
      let (name, cs) ← identifier? nameStops cs
      let (args, cs) ← args? fuel cs
      let (rest, cs) ← inner? fuel cs
      some (.cons name args rest, cs)
    | c => some (.nil, c :: cs)

end

/-- Enough fuel for every text of this length. -/
def fuelFor (cs : List Char) : Nat :=
  2 * cs.length + 2

/-- The bounds of a type parameter at the front of a text that does not end there. -/
def bounds? : Nat → List Char → Option (List (Option TypeSig) × List Char)
  | 0, _ => none
  | _, [] => none
  | fuel + 1, c :: cs =>
    match c with
    | ':' =>
      match cs with
      | [] => none
      | d :: _ => do
        if d = ':' || d = '>' then
          let (bounds, cs) ← bounds? fuel cs
          some (none :: bounds, cs)
        else
          let (t, cs) ← type? (fuel + 1) cs
          let (bounds, cs) ← bounds? fuel cs
          some (some t :: bounds, cs)
    | c => some ([], c :: cs)

/-- The type parameters up to the closing bracket, which is taken too. -/
def parameters? : Nat → List Char → Option (List TypeParameter × List Char)
  | 0, _ => none
  | _, [] => none
  | fuel + 1, c :: cs =>
    match c with
    | '>' => some ([], cs)
    | c => do
      let (name, cs) ← identifier? [':', '>', ';'] (c :: cs)
      let (bounds, cs) ← bounds? (fuel + 1) cs
      let (rest, cs) ← parameters? fuel cs
      some (⟨name, bounds⟩ :: rest, cs)

/-- The parts up to the end of the text. -/
def parts? : Nat → List Char → Option (List SignaturePart)
  | _, [] => some []
  | 0, _ => none
  | fuel + 1, c :: cs =>
    if c = '(' || c = ')' || c = '^' || c = 'V' then do
      let rest ← parts? fuel cs
      some (.mark c :: rest)
    else do
      let (t, cs) ← type? (fuel + 1) (c :: cs)
      let rest ← parts? fuel cs
      some (.type t :: rest)

/-- The signature that a text is. -/
def parse? (cs : List Char) : Option Signature :=
  match cs with
  | '<' :: cs => do
    let (ps, cs) ← parameters? (fuelFor cs) cs
    let parts ← parts? (fuelFor cs) cs
    some ⟨some ps, parts⟩
  | cs => do
    let parts ← parts? (fuelFor cs) cs
    some ⟨none, parts⟩

/-- The signature with its classes renamed, if it is one. -/
def rename? (f : String → String) (signature : String) : Option String :=
  (parse? signature.toList).map fun s => String.ofList (s.renameTree f).print

end Signature

end JarRefit.Naming
