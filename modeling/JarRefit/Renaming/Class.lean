import JarRefit.Renaming.Desk
import JarRefit.Renaming.NestedNames
import JarRefit.Renaming.PoolEdit

/-!
# Renaming a class

Gives the symbols in one class file their new names: first the constants that refer to symbols,
then the declared fields and methods, then the generic signatures, and last the simple names in the
records of nested classes. All of it reads the constants as they were before.
-/
namespace JarRefit

namespace Renaming

open ClassFile Naming

/-- What renaming goes by: the mapping, the constants as they were, and the name of the class. -/
structure Sheet where
  mapping : SymbolMapping
  original : ConstantPool
  owner : String

namespace Sheet

variable {α : Type}

/-- A resolved value, or the fault of resolving it. -/
def resolve (value : Except Fault α) {β : Type} : Work β α := fun desk =>
  match value with
  | .ok a => .ok a desk
  | .error e => .error e desk

/-- The name of the attribute that holds a generic signature. -/
def signatureName : String := "Signature"

/-- The name of the attribute that lists nested classes. -/
def nestedName : String := "InnerClasses"

/-- Renames the classes in a generic signature. Attributes with another name or a payload that is
no index stay, and so does text that is no signature. -/
def renameSignature (s : Sheet) : Work Attribute Unit := do
  let a ← Work.item
  let name ← resolve (s.original.text a.name)
  if name = signatureName then
    match a.info with
    | [high, low] =>
      let signature ← resolve (s.original.text ((high.toUInt16 <<< 8) ||| low.toUInt16))
      match s.mapping.renameSignature? signature with
      | some new =>
        if new ≠ signature then
          let index ← Work.text new
          Work.change fun a => { a with info := encodeU16 index }
      | none => pure ()
    | _ => pure ()

/-- Points a member to its new name and its new descriptor, and renames its signatures. -/
def renameMember (s : Sheet) (newName? : String → String → Access.Flags → Option String) :
    Work Member Unit := do
  let m ← Work.item
  let name ← resolve (s.original.text m.name)
  let descriptor ← resolve (s.original.text m.descriptor)
  match newName? name descriptor m.access with
  | some new =>
    let index ← Work.text new
    Work.change fun m => { m with name := index }
  | none => pure ()
  let newDescriptor := s.mapping.renameDescriptor descriptor
  if newDescriptor ≠ descriptor then
    let index ← Work.text newDescriptor
    Work.change fun m => { m with descriptor := index }
  Work.on Member.attributes (fun attributes m => { m with attributes })
    (Work.each s.renameSignature)

def renameField (s : Sheet) : Work Member Unit :=
  s.renameMember fun name _ access => s.mapping.renameDeclaredField? s.owner name access

def renameMethod (s : Sheet) : Work Member Unit :=
  s.renameMember fun name descriptor access =>
    s.mapping.renameDeclaredMethod? s.owner name descriptor access

/-- Keeps the simple name of a nested class in line with its new name. A record without class or
without simple name stays, and so does one whose class is no longer nested. -/
def renameNested (s : Sheet) : Work NestedRecord Unit := do
  let r ← Work.item
  if r.inner ≠ 0 ∧ r.name ≠ 0 then
    let oldName ← resolve (s.original.text r.name)
    let cls ← resolve (s.original.className r.inner)
    match Text.cutLast? '$' (s.mapping.renameClass cls).toList with
    | some (_, simple) =>
      let newName := String.ofList simple
      if newName ≠ oldName ∧ ¬ newName.isEmpty then
        let index ← Work.text newName
        Work.change fun r => { r with name := index }
    | none => pure ()

/-- Renames in the records of an attribute that lists nested classes. -/
def renameNestedAttribute (s : Sheet) : Work Attribute Unit := do
  let a ← Work.item
  let name ← resolve (s.original.text a.name)
  if name = nestedName then
    match NestedRecord.payload? a.info with
    | some (records, rest) =>
      Work.on (fun _ => records)
        (fun records a => { a with info := NestedRecord.encodePayload records rest })
        (Work.each s.renameNested)
    | none => pure ()

/-- Renames in everything of the class file but its constants. -/
def renameDeclarations (s : Sheet) : Work ClassFile Unit := do
  Work.on ClassFile.fields (fun fields c => { c with fields }) (Work.each s.renameField)
  Work.on ClassFile.methods (fun methods c => { c with methods }) (Work.each s.renameMethod)
  Work.on ClassFile.attributes (fun attributes c => { c with attributes })
    (Work.each s.renameSignature)
  Work.on ClassFile.attributes (fun attributes c => { c with attributes })
    (Work.each s.renameNestedAttribute)

end Sheet

/-- Carries out edits of the constants. -/
def editConstants (edits : List PoolEdit) : Work ClassFile Unit := fun desk =>
  match PoolEdit.applyAll edits desk.interner with
  | .ok () interner => .ok () { desk with interner }
  | .error e interner => .error e { desk with interner }

/-- The class file of a desk, with the constants of its interner. -/
def Desk.classFile (desk : Desk ClassFile) : ClassFile :=
  { desk.item with pool := desk.interner.pool }

end Renaming

namespace ClassFile

open Naming Renaming

/-- Renames the symbols of the class file and gives the new name of the class. -/
def rename (m : SymbolMapping) : ClassM String := fun c =>
  match (do return (← c.name, ← PoolEdit.plan m c.pool) : Except Fault _) with
  | .error e => .error e c
  | .ok (owner, edits) =>
    let work : Work ClassFile Unit := do
      editConstants edits
      Sheet.renameDeclarations ⟨m, c.pool, owner⟩
    match work ⟨.ofPool c.pool, c⟩ with
    | .error e desk => .error e desk.classFile
    | .ok () desk => .ok (m.renameClass owner) desk.classFile

end ClassFile

end JarRefit
