import JarRefit.ClassFile.Basic

/-!
# Stripping synthetic markers

Takes the synthetic flag from the fields and methods of a class file. Classes that are synthetic
themselves and enumerations keep theirs. Bytes are written anew only if a flag was taken.
-/
namespace JarRefit.ClassFile

open Access (Flags)

def Member.isSynthetic (m : Member) : Bool :=
  m.access.contains .syntheticBit

/-- The member without the synthetic flag. -/
def Member.strip (m : Member) : Member :=
  { m with access := m.access.remove .syntheticBit }

/-- Whether the members of the class keep their synthetic flags. -/
def keepsSynthetics (c : ClassFile) : Except Fault Bool := do
  if c.access.contains .syntheticBit then return true
  c.isEnum

/-- The number of fields and methods with the synthetic flag. -/
def syntheticCount (c : ClassFile) : Nat :=
  c.fields.countP Member.isSynthetic + c.methods.countP Member.isSynthetic

/-- The class file without synthetic flags on its members, and how many had one. -/
def strip (c : ClassFile) : Except Fault (ClassFile × Nat) := do
  if ← c.keepsSynthetics then return (c, 0)
  return ({ c with fields := c.fields.map Member.strip, methods := c.methods.map Member.strip },
    c.syntheticCount)

/-- The bytes of the stripped class file, if stripping changes anything. -/
def stripBytes? (data : List UInt8) : Except Fault (Option (List UInt8)) := do
  let (c, count) ← (← decode data).strip
  return if count = 0 then none else some c.encode

end JarRefit.ClassFile
