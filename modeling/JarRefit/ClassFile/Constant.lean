import JarRefit.ClassFile.Bytes

/-!
# Constants

The kinds of constants that a class file can hold. Constants name each other by their index in
the pool.
-/
namespace JarRefit.ClassFile

/-- What stands in one slot of a constant pool. -/
inductive Constant where
  /-- Text, kept as the bytes of the file. -/
  | utf8 (bytes : List UInt8)
  | integer (bits : UInt32)
  | float (bits : UInt32)
  | long (bits : UInt64)
  | double (bits : UInt64)
  | classRef (name : UInt16)
  | string (text : UInt16)
  | fieldRef (owner nameAndType : UInt16)
  | methodRef (owner nameAndType : UInt16)
  | interfaceMethodRef (owner nameAndType : UInt16)
  | nameAndType (name descriptor : UInt16)
  | methodHandle (kind : UInt8) (reference : UInt16)
  | methodType (descriptor : UInt16)
  | dynamic (bootstrap nameAndType : UInt16)
  | invokeDynamic (bootstrap nameAndType : UInt16)
  | moduleRef (name : UInt16)
  | packageRef (name : UInt16)
  /-- No constant: slot 0, and the slot after a long or a double. -/
  | unusable
deriving DecidableEq, Repr

namespace Constant

/-- Whether the constant takes two slots. -/
def isWide : Constant → Bool
  | long _ | double _ => true
  | _ => false

/-- The number of slots that the constant takes. -/
def width (c : Constant) : Nat :=
  if c.isWide then 2 else 1

/-- The name that the class file format gives to the kind of a constant. -/
def kind : Constant → String
  | utf8 _ => "Utf8"
  | integer _ => "Integer"
  | float _ => "Float"
  | long _ => "Long"
  | double _ => "Double"
  | classRef _ => "Class"
  | string _ => "String"
  | fieldRef _ _ => "Fieldref"
  | methodRef _ _ => "Methodref"
  | interfaceMethodRef _ _ => "InterfaceMethodref"
  | nameAndType _ _ => "NameAndType"
  | methodHandle _ _ => "MethodHandle"
  | methodType _ => "MethodType"
  | dynamic _ _ => "Dynamic"
  | invokeDynamic _ _ => "InvokeDynamic"
  | moduleRef _ => "Module"
  | packageRef _ => "Package"
  | unusable => "Unusable"

/-- The class and the name-and-type of a reference to a member. -/
def memberRef? : Constant → Option (UInt16 × UInt16)
  | fieldRef owner nt | methodRef owner nt | interfaceMethodRef owner nt => some (owner, nt)
  | _ => none

/-- The bytes of a constant; an unusable slot has none. -/
def encode : Constant → List UInt8
  | utf8 bytes => 1 :: (encodeU16 bytes.length.toUInt16 ++ bytes)
  | integer bits => 3 :: encodeU32 bits
  | float bits => 4 :: encodeU32 bits
  | long bits => 5 :: encodeU64 bits
  | double bits => 6 :: encodeU64 bits
  | classRef name => 7 :: encodeU16 name
  | string text => 8 :: encodeU16 text
  | fieldRef owner nt => 9 :: (encodeU16 owner ++ encodeU16 nt)
  | methodRef owner nt => 10 :: (encodeU16 owner ++ encodeU16 nt)
  | interfaceMethodRef owner nt => 11 :: (encodeU16 owner ++ encodeU16 nt)
  | nameAndType name descriptor => 12 :: (encodeU16 name ++ encodeU16 descriptor)
  | methodHandle kind reference => 15 :: kind :: encodeU16 reference
  | methodType descriptor => 16 :: encodeU16 descriptor
  | dynamic bootstrap nt => 17 :: (encodeU16 bootstrap ++ encodeU16 nt)
  | invokeDynamic bootstrap nt => 18 :: (encodeU16 bootstrap ++ encodeU16 nt)
  | moduleRef name => 19 :: encodeU16 name
  | packageRef name => 20 :: encodeU16 name
  | unusable => []

/-- Two 16-bit fields of a constant. -/
def decodePair (make : UInt16 → UInt16 → Constant) : Decoder Constant := do
  let a ← Decoder.u16
  let b ← Decoder.u16
  return make a b

/-- What follows a constant's tag. -/
def decodeBody (tag : UInt8) : Decoder Constant :=
  match tag with
  | 1 => do
    let n ← Decoder.u16
    utf8 <$> Decoder.bytes n.toNat
  | 3 => integer <$> Decoder.u32
  | 4 => float <$> Decoder.u32
  | 5 => long <$> Decoder.u64
  | 6 => double <$> Decoder.u64
  | 7 => classRef <$> Decoder.u16
  | 8 => string <$> Decoder.u16
  | 9 => decodePair fieldRef
  | 10 => decodePair methodRef
  | 11 => decodePair interfaceMethodRef
  | 12 => decodePair nameAndType
  | 15 => do
    let kind ← Decoder.u8
    methodHandle kind <$> Decoder.u16
  | 16 => methodType <$> Decoder.u16
  | 17 => decodePair dynamic
  | 18 => decodePair invokeDynamic
  | 19 => moduleRef <$> Decoder.u16
  | 20 => packageRef <$> Decoder.u16
  | other => throw (.unknownTag other)

/-- One constant: its tag and its body. -/
def decode : Decoder Constant := do
  decodeBody (← Decoder.u8)

end Constant

end JarRefit.ClassFile
