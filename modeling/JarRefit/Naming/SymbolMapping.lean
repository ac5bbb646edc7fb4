import JarRefit.Access.Flags
import JarRefit.Naming.Descriptor
import JarRefit.Naming.Hierarchy
import JarRefit.Naming.Signature
import JarRefit.Naming.Srg

/-!
# Symbol mappings

New names for packages, classes, fields and methods. The first entry for a symbol counts. A class
without an entry follows the class around it, and outside of classes its package; a member
without an entry follows the nearest ancestor of its owner that has one.
-/
namespace JarRefit.Naming

open Access (Flags)

/-- New names by old symbol: packages and classes by internal name, fields by `owner/name`, methods
by `owner/name descriptor`. -/
structure SymbolMapping where
  packages : Std.HashMap String String := ∅
  classes : Std.HashMap String String := ∅
  fields : Std.HashMap String String := ∅
  methods : Std.HashMap String String := ∅
  /-- Where to look for the ancestors of a member's owner. -/
  hierarchy : Option Hierarchy := none

namespace SymbolMapping

def empty : SymbolMapping := {}

/-- The name of the package that has no name. -/
def defaultPackage : String := "."

/-- A package name without slashes at its end; what is left of the unnamed package is its sign. -/
def normalizePackage (package : String) : String :=
  let trimmed := (package.toList.reverse.dropWhile (· == '/')).reverse
  if trimmed.isEmpty then defaultPackage else String.ofList trimmed

def fieldKey (owner name : String) : String :=
  owner ++ "/" ++ name

def methodKey (owner name descriptor : String) : String :=
  owner ++ "/" ++ name ++ " " ++ descriptor

/-! ### Entries -/

def addPackage (m : SymbolMapping) (old new : String) : SymbolMapping :=
  { m with packages := m.packages.insertIfNew (normalizePackage old) (normalizePackage new) }

def addClass (m : SymbolMapping) (old new : String) : SymbolMapping :=
  { m with classes := m.classes.insertIfNew old new }

def addField (m : SymbolMapping) (owner name new : String) : SymbolMapping :=
  { m with fields := m.fields.insertIfNew (fieldKey owner name) new }

def addMethod (m : SymbolMapping) (owner name descriptor new : String) : SymbolMapping :=
  { m with methods := m.methods.insertIfNew (methodKey owner name descriptor) new }

def add (m : SymbolMapping) : SrgEntry → SymbolMapping
  | .package old new => m.addPackage old new
  | .cls old new => m.addClass old new
  | .field owner name new => m.addField owner name new
  | .method owner name descriptor new => m.addMethod owner name descriptor new

/-- The mapping with the entries of an SRG text added. -/
def load (m : SymbolMapping) (text : String) : SymbolMapping :=
  (Srg.entries text).foldl add m

def isEmpty (m : SymbolMapping) : Bool :=
  m.packages.isEmpty && m.classes.isEmpty && m.fields.isEmpty && m.methods.isEmpty

/-- The number of entries of each kind, and whether there is a hierarchy. -/
def summary (m : SymbolMapping) : String :=
  "SymbolMapping \x7b packages: " ++ toString m.packages.size ++
    ", classes: " ++ toString m.classes.size ++
    ", fields: " ++ toString m.fields.size ++
    ", methods: " ++ toString m.methods.size ++
    ", fallback: " ++ (if m.hierarchy.isSome then "true" else "false") ++ " \x7d"

/-! ### Classes -/

/-- The package and the simple name of a class. -/
def splitPackage (cls : String) : String × String :=
  match Text.cutLast? '/' cls.toList with
  | some (package, simple) => (String.ofList package, String.ofList simple)
  | none => (defaultPackage, cls)

/-- The class in the place that the table gives for its package. -/
def relocate (m : SymbolMapping) (cls : String) : String :=
  let (package, simple) := splitPackage cls
  match m.packages[package]? with
  | some new => if new = defaultPackage then simple else new ++ "/" ++ simple
  | none => cls

/-- The new name of a class. -/
def renameClass (m : SymbolMapping) (cls : String) : String :=
  match m.classes[cls]? with
  | some new => new
  | none =>
    match _h : Text.cutLast? '$' cls.toList with
    | some (outer, inner) =>
      let outer := String.ofList outer
      let newOuter := m.renameClass outer
      if newOuter = outer then cls else newOuter ++ "$" ++ String.ofList inner
    | none => m.relocate cls
termination_by cls.toList.length
decreasing_by
  have h := congrArg List.length (Text.cutLast?_eq_some _h).1
  simp at h ⊢
  omega

/-- The descriptor with its classes renamed. -/
def renameDescriptor (m : SymbolMapping) (descriptor : String) : String :=
  Descriptor.rename m.renameClass descriptor

/-- The generic signature with its classes renamed, if it is one. -/
def renameSignature? (m : SymbolMapping) (signature : String) : Option String :=
  Signature.rename? m.renameClass signature

/-! ### Members -/

/-- The entry of a class or of the nearest of its ancestors that has one. -/
def findInHierarchy (m : SymbolMapping) (lookup? : String → Option String) (cls : String) :
    Option String :=
  (m.hierarchy.getD ⟨[]⟩).find? lookup? cls

def fieldEntry? (m : SymbolMapping) (name owner : String) : Option String :=
  m.fields[fieldKey owner name]?

def methodEntry? (m : SymbolMapping) (name descriptor owner : String) : Option String :=
  m.methods[methodKey owner name descriptor]?

/-- Whether a method's name is one of those that no mapping changes, such as `<init>`. -/
def isReserved (name : String) : Bool :=
  name.toList.head? == some '<'

/-- The new name of a field that is referred to through a class. -/
def renameField? (m : SymbolMapping) (owner name : String) : Option String :=
  m.findInHierarchy (m.fieldEntry? name) owner

/-- The new name of a method that is referred to through a class. -/
def renameMethod? (m : SymbolMapping) (owner name descriptor : String) : Option String :=
  if isReserved name then none else m.findInHierarchy (m.methodEntry? name descriptor) owner

/-- Whether a member with these flags is inherited. -/
def isInheritable (access : Flags) : Bool :=
  !access.contains .privateBit && !access.contains .staticBit

/-- The new name of a field that a class declares; one that is not inherited follows no
ancestor. -/
def renameDeclaredField? (m : SymbolMapping) (owner name : String) (access : Flags) :
    Option String :=
  if isInheritable access then m.renameField? owner name else m.fieldEntry? name owner

/-- The new name of a method that a class declares; one that is not inherited follows no
ancestor. -/
def renameDeclaredMethod? (m : SymbolMapping) (owner name descriptor : String) (access : Flags) :
    Option String :=
  if isInheritable access || isReserved name then m.renameMethod? owner name descriptor
  else m.methodEntry? name descriptor owner

end SymbolMapping

end JarRefit.Naming
