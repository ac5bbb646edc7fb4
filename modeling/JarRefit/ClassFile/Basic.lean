import JarRefit.Access.Flags
import JarRefit.ClassFile.Pool

/-!
# Class files

A class file as it lies on disk: constant pool, flags, members and attributes, all of which refer
to constants by index. `ClassFile.decode` reads one and `ClassFile.encode` writes it.
-/
namespace JarRefit.ClassFile

open Access (Flags)

/-- A named piece of data whose meaning the name tells. -/
structure Attribute where
  name : UInt16
  info : List UInt8
deriving DecidableEq, Repr

/-- A field or a method. -/
structure Member where
  access : Flags
  name : UInt16
  descriptor : UInt16
  attributes : List Attribute
deriving DecidableEq, Repr

inductive MemberKind where
  | field
  | method
deriving DecidableEq, Repr

end JarRefit.ClassFile

namespace JarRefit

open Access (Flags)
open ClassFile

/-- A class file. The index of the superclass is 0 for a class without one. -/
structure ClassFile where
  minorVersion : UInt16
  majorVersion : UInt16
  pool : ConstantPool
  access : Flags
  thisClass : UInt16
  superClass : UInt16
  interfaces : List UInt16
  fields : List Member
  methods : List Member
  attributes : List Attribute
deriving DecidableEq, Repr

namespace ClassFile

/-! ### Names -/

/-- The internal name of the class. -/
def name (c : ClassFile) : Except Fault String :=
  c.pool.className c.thisClass

def superName (c : ClassFile) : Except Fault (Option String) :=
  if c.superClass = 0 then .ok none else some <$> c.pool.className c.superClass

def interfaceNames (c : ClassFile) : Except Fault (List String) :=
  c.interfaces.mapM c.pool.className

/-- The class that every enumeration extends. -/
def enumBase : String := "java/lang/Enum"

/-- Whether the class is an enumeration: its flag says so, or its superclass does. -/
def isEnum (c : ClassFile) : Except Fault Bool := do
  if c.access.contains .enumBit then return true
  return (← c.superName) == some enumBase

/-! ### Building -/

/-- Work on a class file that keeps what was done before a fault. -/
abbrev ClassM := EStateM Fault ClassFile

/-- Does the work on the constant pool of the class. -/
def onPool {α : Type} (work : PoolM α) : ClassM α := fun c =>
  match work c.pool with
  | .ok a pool => .ok a { c with pool }
  | .error e pool => .error e { c with pool }

/-- The class file without members of a class with this name, superclass and flags. -/
def make (name : String) (superName : Option String) (access : Flags) : Except Fault ClassFile :=
  let work : PoolM (UInt16 × UInt16) := do
    let this ← ConstantPool.internClass name
    match superName with
    | some s => return (this, ← ConstantPool.internClass s)
    | none => return (this, 0)
  match work .empty with
  | .ok (thisClass, superClass) pool =>
    .ok {
      minorVersion := 0, majorVersion := 52, pool, access, thisClass, superClass
      interfaces := [], fields := [], methods := [], attributes := [] }
  | .error e _ => .error e

/-- Adds a member without attributes. -/
def addMember (kind : MemberKind) (access : Flags) (name descriptor : String) : ClassM Member := do
  let name ← onPool (ConstantPool.internText name)
  let descriptor ← onPool (ConstantPool.internText descriptor)
  let member : Member := { access, name, descriptor, attributes := [] }
  modify fun c =>
    match kind with
    | .field => { c with fields := c.fields ++ [member] }
    | .method => { c with methods := c.methods ++ [member] }
  return member

/-! ### Bytes -/

def Attribute.decode : Decoder Attribute := do
  let name ← Decoder.u16
  let length ← Decoder.u32
  return { name, info := ← Decoder.bytes length.toNat }

def Attribute.encode (a : Attribute) : List UInt8 :=
  encodeU16 a.name ++ (encodeU32 a.info.length.toUInt32 ++ a.info)

def Member.decode : Decoder Member := do
  let access ← Decoder.u16
  let name ← Decoder.u16
  let descriptor ← Decoder.u16
  return { access := ⟨access⟩, name, descriptor, attributes := ← Decoder.counted Attribute.decode }

def Member.encode (m : Member) : List UInt8 :=
  encodeU16 m.access.bits ++ (encodeU16 m.name ++ (encodeU16 m.descriptor ++
    encodeCounted Attribute.encode m.attributes))

/-- The number that starts every class file. -/
def magic : UInt32 := 0xCAFEBABE

/-- A class file at the front of the bytes. -/
def decodeFront : Decoder ClassFile := do
  if (← Decoder.u32) != magic then throw .badMagic
  let minorVersion ← Decoder.u16
  let majorVersion ← Decoder.u16
  let pool ← ConstantPool.decode
  let access ← Decoder.u16
  let thisClass ← Decoder.u16
  let superClass ← Decoder.u16
  let interfaces ← Decoder.counted Decoder.u16
  let fields ← Decoder.counted Member.decode
  let methods ← Decoder.counted Member.decode
  let attributes ← Decoder.counted Attribute.decode
  return { minorVersion, majorVersion, pool, access := ⟨access⟩, thisClass, superClass
           interfaces, fields, methods, attributes }

/-- The class file that the bytes are, from the first to the last. -/
def decode (bytes : List UInt8) : Except Fault ClassFile := do
  let (c, rest) ← decodeFront bytes
  if rest.isEmpty then return c
  throw (.trailingBytes rest.length)

/-- The bytes of a class file. -/
def encode (c : ClassFile) : List UInt8 :=
  encodeU32 magic ++ (encodeU16 c.minorVersion ++ (encodeU16 c.majorVersion ++
    (c.pool.encode ++ (encodeU16 c.access.bits ++ (encodeU16 c.thisClass ++
      (encodeU16 c.superClass ++ (encodeCounted encodeU16 c.interfaces ++
        (encodeCounted Member.encode c.fields ++ (encodeCounted Member.encode c.methods ++
          encodeCounted Attribute.encode c.attributes)))))))))

end ClassFile

end JarRefit
