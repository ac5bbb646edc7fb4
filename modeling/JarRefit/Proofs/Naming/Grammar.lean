/-!
# The grammar of signatures

The generic signatures of classes, methods and fields as the class file format defines them: trees
that follow its productions, and the text that each of them generates. The text can be spelled with
other class names, which is what renaming a signature means.

## Main definitions

* `Grammar.Signature`: the trees, with the productions they are made by.
* `Grammar.Spelling`: how the names in class types are written.
* `Grammar.Signature.text`, `Grammar.Signature.renamed`: the text of a tree, and its text under new
  class names.
-/
namespace JarRefit.Naming.Grammar

/-! ## Names -/

/-- The characters that stand in no identifier. -/
def reserved : List Char := ['.', ';', '[', '/', '<', '>', ':']

/-- An identifier: one segment of a class name, or the name of a type variable. -/
structure Identifier where
  text : String
  ne_empty : text ≠ ""
  unreserved : ∀ c ∈ text.toList, c ∉ reserved

/-- The name of a class with the packages around it, the outermost first. -/
structure ClassName where
  packages : List Identifier
  simple : Identifier

def ClassName.text (name : ClassName) : String :=
  name.packages.foldr (fun package rest => package.text ++ "/" ++ rest) name.simple.text

/-- The binary name of a class that is nested in another. -/
def nestedName (outer own : String) : String :=
  outer ++ "$" ++ own

theorem toList_nestedName (outer own : String) :
    (nestedName outer own).toList = outer.toList ++ '$' :: own.toList := by
  simp [nestedName]

def Identifier.nest (outer own : Identifier) : Identifier where
  text := nestedName outer.text own.text
  ne_empty := by simp [nestedName]
  unreserved c hc := by
    simp only [nestedName, String.toList_append, List.mem_append] at hc
    rcases hc with (hc | hc) | hc
    · exact outer.unreserved c hc
    · obtain rfl : c = '$' := by simpa using hc
      decide
    · exact own.unreserved c hc

/-- The name of a nested class is again a class name. -/
def ClassName.nest (outer : ClassName) (own : Identifier) : ClassName :=
  ⟨outer.packages, outer.simple.nest own⟩

theorem ClassName.text_nest (outer : ClassName) (own : Identifier) :
    (outer.nest own).text = nestedName outer.text own.text := by
  obtain ⟨packages, simple⟩ := outer
  induction packages with
  | nil => rfl
  | cons package packages ih =>
    simp only [text, nest, nestedName, List.foldr_cons, String.append_assoc] at ih ⊢
    rw [ih]

/-! ## Types -/

inductive BaseType where
  | byte
  | char
  | double
  | float
  | int
  | long
  | short
  | boolean

def BaseType.letter : BaseType → Char
  | .byte => 'B'
  | .char => 'C'
  | .double => 'D'
  | .float => 'F'
  | .int => 'I'
  | .long => 'J'
  | .short => 'S'
  | .boolean => 'Z'

/-- The bound of a type argument: the types below a type, or those above it. -/
inductive Wildcard where
  | upper
  | lower

def Wildcard.mark : Wildcard → Char
  | .upper => '+'
  | .lower => '-'

mutual

inductive ReferenceType where
  /-- A class with its type arguments and the classes nested in it, from the outermost one on. -/
  | cls (name : ClassName) (args : Arguments) (inner : Suffixes)
  | typeVariable (name : Identifier)
  | baseArray (element : BaseType)
  | array (element : ReferenceType)

/-- The type arguments of a class. Without any, no brackets are written. -/
inductive Arguments where
  | nil
  /-- The argument `*`. -/
  | any (rest : Arguments)
  | type (wildcard : Option Wildcard) (t : ReferenceType) (rest : Arguments)

/-- The nested classes behind a class. -/
inductive Suffixes where
  | nil
  | cons (name : Identifier) (args : Arguments) (rest : Suffixes)

end

structure ClassType where
  name : ClassName
  args : Arguments
  inner : Suffixes

def ClassType.toReference (t : ClassType) : ReferenceType :=
  .cls t.name t.args t.inner

inductive JavaType where
  | base (t : BaseType)
  | reference (t : ReferenceType)

/-! ## Signatures -/

/-- A type parameter. Its class bound can be left out, the colon in front of it cannot. -/
structure TypeParameter where
  name : Identifier
  classBound : Option ReferenceType
  interfaceBounds : List ReferenceType

inductive Thrown where
  | cls (t : ClassType)
  | typeVariable (name : Identifier)

def Thrown.toReference : Thrown → ReferenceType
  | .cls t => t.toReference
  | .typeVariable name => .typeVariable name

/-- The signature of a class, of a method, where no result stands for `V`, or of a field. -/
inductive Signature where
  | cls (parameters : List TypeParameter) (superclass : ClassType) (interfaces : List ClassType)
  | method (parameters : List TypeParameter) (arguments : List JavaType) (result : Option JavaType)
      (throws : List Thrown)
  | field (t : ReferenceType)

def Signature.parameters : Signature → List TypeParameter
  | .cls parameters .. | .method parameters .. => parameters
  | .field _ => []

/-- Whether each class bound that is left out has an interface bound or the end of the parameters
behind it. -/
def Signature.BoundsClosed (s : Signature) : Prop :=
  ∀ p ∈ s.parameters.dropLast, p.classBound = none → p.interfaceBounds ≠ []

/-! ## Spelling -/

/-- How the names in class types are written: the outermost one, and a nested one behind a class of
which the binary name is given. -/
structure Spelling where
  outermost : String → String
  segment : String → String → String

namespace Spelling

/-- Every name as it is. -/
def plain : Spelling where
  outermost name := name
  segment _ own := own

/-- The new names of classes. A nested class is written as what its new name adds to the new name of
the class around it, and as before where it does not add to it. -/
def renamed (f : String → String) : Spelling where
  outermost := f
  segment outer own :=
    let front := (f outer ++ "$").toList
    let nested := (f (nestedName outer own)).toList
    if front.isPrefixOf nested then String.ofList (nested.drop front.length) else own

end Spelling

/-! ## Text -/

/-- A list in brackets, of which an empty one has none. -/
def bracketed : List Char → List Char
  | [] => []
  | items => '<' :: (items ++ ['>'])

mutual

def ReferenceType.write (sp : Spelling) : ReferenceType → List Char
  | .cls name args inner =>
    'L' :: ((sp.outermost name.text).toList ++ bracketed (args.write sp) ++
      inner.write sp name.text ++ [';'])
  | .typeVariable name => 'T' :: (name.text.toList ++ [';'])
  | .baseArray element => ['[', element.letter]
  | .array element => '[' :: element.write sp

def Arguments.write (sp : Spelling) : Arguments → List Char
  | .nil => []
  | .any rest => '*' :: rest.write sp
  | .type wildcard t rest => wildcard.toList.map Wildcard.mark ++ t.write sp ++ rest.write sp

/-- The classes behind a class whose binary name is given. -/
def Suffixes.write (sp : Spelling) (outer : String) : Suffixes → List Char
  | .nil => []
  | .cons name args rest =>
    '.' :: ((sp.segment outer name.text).toList ++ bracketed (args.write sp) ++
      rest.write sp (nestedName outer name.text))

end

def JavaType.write (sp : Spelling) : JavaType → List Char
  | .base t => [t.letter]
  | .reference t => t.write sp

def TypeParameter.write (sp : Spelling) (p : TypeParameter) : List Char :=
  p.name.text.toList ++ ':' :: (p.classBound.elim [] (·.write sp) ++
    p.interfaceBounds.flatMap fun t => ':' :: t.write sp)

def Signature.write (sp : Spelling) : Signature → List Char
  | .cls parameters superclass interfaces =>
    bracketed (parameters.flatMap (·.write sp)) ++ superclass.toReference.write sp ++
      interfaces.flatMap fun t => t.toReference.write sp
  | .method parameters arguments result throws =>
    bracketed (parameters.flatMap (·.write sp)) ++ '(' :: arguments.flatMap (·.write sp) ++
      ')' :: result.elim ['V'] (·.write sp) ++
        throws.flatMap fun t => '^' :: t.toReference.write sp
  | .field t => t.write sp

/-- The text that the grammar generates for the tree. -/
def Signature.text (s : Signature) : String :=
  String.ofList (s.write .plain)

/-- The text with the classes renamed, and nothing else. -/
def Signature.renamed (f : String → String) (s : Signature) : String :=
  String.ofList (s.write (.renamed f))

end JarRefit.Naming.Grammar
