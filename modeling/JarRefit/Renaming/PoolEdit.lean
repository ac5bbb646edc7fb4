import JarRefit.Naming.SymbolMapping
import JarRefit.Renaming.Interner

/-!
# Edits of a constant pool

Which constants of a pool a symbol mapping changes. Edits are planned on the pool as it is and
carried out afterwards. Text constants are never changed, since one can stand for several things,
a field's name and a string literal for instance; an edited constant points to other text.
-/
namespace JarRefit.Renaming

open ClassFile Naming

/-- A change of the constant at an index. -/
inductive PoolEdit where
  /-- A class gets a new name. -/
  | className (index : UInt16) (name : String)
  /-- A constant with a name-and-type gets another one. -/
  | nameAndType (index : UInt16) (name descriptor : String)
  /-- A method type gets a new descriptor. -/
  | methodType (index : UInt16) (descriptor : String)
deriving DecidableEq, Repr

namespace PoolEdit

/-- Whether a class name is the descriptor of an array. -/
def isArrayName (name : String) : Bool :=
  name.toList.head? == some '['

/-- The new name of a class constant, which an array holds as a descriptor. -/
def newClassName (m : SymbolMapping) (name : String) : String :=
  if isArrayName name then m.renameDescriptor name else m.renameClass name

/-- The new name of a member that is referred to through `owner`, if it has one. Members of arrays
keep their names. -/
def newMemberName? (m : SymbolMapping) (isField : Bool) (owner name descriptor : String) :
    Option String :=
  if isArrayName owner then none
  else if isField then m.renameField? owner name
  else m.renameMethod? owner name descriptor

/-- What a mapping changes of a reference to a member. -/
def planReference (m : SymbolMapping) (pool : ConstantPool) (isField : Bool)
    (index owner nameAndType : UInt16) : Except Fault (Option PoolEdit) := do
  let owner ← pool.className owner
  let (name, descriptor) ← pool.nameAndType nameAndType
  let newName? := newMemberName? m isField owner name descriptor
  let newDescriptor := m.renameDescriptor descriptor
  if newName?.isSome || newDescriptor != descriptor then
    return some (.nameAndType index (newName?.getD name) newDescriptor)
  return none

/-- What a mapping changes of a constant computed at run time, whose name belongs to no class. -/
def planDynamic (m : SymbolMapping) (pool : ConstantPool) (index nameAndType : UInt16) :
    Except Fault (Option PoolEdit) := do
  let (name, descriptor) ← pool.nameAndType nameAndType
  let newDescriptor := m.renameDescriptor descriptor
  return if newDescriptor = descriptor then none
    else some (.nameAndType index name newDescriptor)

/-- What a mapping changes of one constant. -/
def planEntry (m : SymbolMapping) (pool : ConstantPool) :
    UInt16 × Constant → Except Fault (Option PoolEdit)
  | (index, .classRef name) => do
    let name ← pool.text name
    let newName := newClassName m name
    return if newName = name then none else some (.className index newName)
  | (index, .fieldRef owner nt) => planReference m pool true index owner nt
  | (index, .methodRef owner nt) => planReference m pool false index owner nt
  | (index, .interfaceMethodRef owner nt) => planReference m pool false index owner nt
  | (index, .dynamic _ nt) => planDynamic m pool index nt
  | (index, .invokeDynamic _ nt) => planDynamic m pool index nt
  | (index, .methodType descriptor) => do
    let descriptor ← pool.text descriptor
    let newDescriptor := m.renameDescriptor descriptor
    return if newDescriptor = descriptor then none else some (.methodType index newDescriptor)
  | _ => return none

/-- The edits of a pool, in the order of its constants. -/
def plan (m : SymbolMapping) (pool : ConstantPool) : Except Fault (List PoolEdit) := do
  return (← pool.entries.mapM (planEntry m pool)).filterMap id

/-- The constant with another name-and-type, if it has one. -/
def withNameAndType? (nt : UInt16) : Constant → Option Constant
  | .fieldRef owner _ => some (.fieldRef owner nt)
  | .methodRef owner _ => some (.methodRef owner nt)
  | .interfaceMethodRef owner _ => some (.interfaceMethodRef owner nt)
  | .dynamic bootstrap _ => some (.dynamic bootstrap nt)
  | .invokeDynamic bootstrap _ => some (.invokeDynamic bootstrap nt)
  | _ => none

/-- Carries out one edit. -/
def apply : PoolEdit → InternerM Unit
  | .className index name => do
    let name ← Interner.text name
    Interner.update index fun _ => some (.classRef name)
  | .nameAndType index name descriptor => do
    let nt ← Interner.nameAndType name descriptor
    Interner.update index (withNameAndType? nt)
  | .methodType index descriptor => do
    let descriptor ← Interner.text descriptor
    Interner.update index fun _ => some (.methodType descriptor)

/-- Carries out edits one after another. -/
def applyAll (edits : List PoolEdit) : InternerM Unit :=
  edits.forM apply

end PoolEdit

end JarRefit.Renaming
