import JarRefit.Access.Table
import JarRefit.ClassFile.Basic

/-!
# Widening a class

Applies an access table to the flags of a class file, its fields and its methods, under the names
that they have in it. Only flags change.
-/
namespace JarRefit.ClassFile

/-- Replaces members one after another, up to the first one for which that fails. -/
def replaceMembers (f : Member → Except Fault Member) (ms : List Member) :
    List Member × Option Fault :=
  go [] ms
where
  go (done : List Member) : List Member → List Member × Option Fault
    | [] => (done.reverse, none)
    | m :: rest =>
      match f m with
      | .ok m => go (m :: done) rest
      | .error e => (done.reverse ++ m :: rest, some e)

/-- The field with the flags that the table gives it. -/
def widenField (table : Access.Table) (owner : String) (pool : ConstantPool) (m : Member) :
    Except Fault Member := do
  return { m with access := table.applyField owner (← pool.text m.name) m.access }

/-- The method with the flags that the table gives it. -/
def widenMethod (table : Access.Table) (owner : String) (pool : ConstantPool) (m : Member) :
    Except Fault Member := do
  let name ← pool.text m.name
  let descriptor ← pool.text m.descriptor
  return { m with access := table.applyMethod owner name descriptor m.access }

/-- Gives the class, its fields and its methods the flags that the table gives them. -/
def widen (table : Access.Table) : ClassM Unit := fun c =>
  match c.name with
  | .error e => .error e c
  | .ok owner =>
    let c := { c with access := table.applyClass owner c.access }
    match replaceMembers (widenField table owner c.pool) c.fields with
    | (fields, some e) => .error e { c with fields }
    | (fields, none) =>
      match replaceMembers (widenMethod table owner c.pool) c.methods with
      | (methods, some e) => .error e { c with fields, methods }
      | (methods, none) => .ok () { c with fields, methods }

end JarRefit.ClassFile
