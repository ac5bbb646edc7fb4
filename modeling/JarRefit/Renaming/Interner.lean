import Std.Data.HashMap
import JarRefit.ClassFile.Basic

/-!
# Interning constants

A constant pool with indexes of its text and name-and-type constants. Asking for a constant gives
the slot of the first one that holds the value, and appends one if there is none; constants
already there are never changed by it.
-/
namespace JarRefit.Renaming

open ClassFile

/-- A constant pool with the first slot of each text and of each name-and-type. -/
structure Interner where
  pool : ConstantPool
  texts : Std.HashMap (List UInt8) UInt16
  pairs : Std.HashMap (UInt16 × UInt16) UInt16

/-- Work on an interner that keeps what was done before a fault. -/
abbrev InternerM := EStateM Fault Interner

namespace Interner

/-- Takes a constant into the indexes, unless an earlier one holds the same value. -/
def note (interner : Interner) (entry : UInt16 × Constant) : Interner :=
  match entry.2 with
  | .utf8 bytes => { interner with texts := interner.texts.insertIfNew bytes entry.1 }
  | .nameAndType name descriptor =>
    { interner with pairs := interner.pairs.insertIfNew (name, descriptor) entry.1 }
  | _ => interner

def ofPool (pool : ConstantPool) : Interner :=
  pool.entries.foldl note ⟨pool, ∅, ∅⟩

/-- Does the work on the pool and leaves the indexes. -/
def onPool {α : Type} (work : PoolM α) : InternerM α := fun interner =>
  match work interner.pool with
  | .ok a pool => .ok a { interner with pool }
  | .error e pool => .error e { interner with pool }

/-- The slot of a text. -/
def text (s : String) : InternerM UInt16 := do
  let bytes := Utf8.encode s
  match (← EStateM.get).texts[bytes]? with
  | some index => return index
  | none =>
    let index ← onPool (ConstantPool.pushText s)
    modify fun interner => { interner with texts := interner.texts.insert bytes index }
    return index

/-- The slot of a name-and-type. -/
def nameAndType (name descriptor : String) : InternerM UInt16 := do
  let name ← text name
  let descriptor ← text descriptor
  match (← EStateM.get).pairs[(name, descriptor)]? with
  | some index => return index
  | none =>
    let index ← onPool (ConstantPool.push (.nameAndType name descriptor))
    modify fun interner =>
      { interner with pairs := interner.pairs.insert (name, descriptor) index }
    return index

/-- Replaces the constant at an index by what `f` makes of it; where that is nothing, the index is
bad. -/
def update (index : UInt16) (f : Constant → Option Constant) : InternerM Unit :=
  onPool fun pool =>
    match pool.get index with
    | .error e => .error e pool
    | .ok c =>
      match f c with
      | none => .error (.badIndex index) pool
      | some c =>
        match pool.set index c with
        | .error e => .error e pool
        | .ok pool => .ok () pool

end Interner

end JarRefit.Renaming
