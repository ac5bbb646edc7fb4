/-!
# Faults of class files

Why a class file cannot be read, or a constant cannot be resolved or added.
-/
namespace JarRefit.ClassFile

/-- A cause of failure, with what it is about. -/
inductive Fault where
  /-- The bytes end before the class file does. -/
  | unexpectedEnd
  /-- The first four bytes are not those of a class file. -/
  | badMagic
  | unknownTag (tag : UInt8)
  /-- No constant of the wanted kind stands at an index. -/
  | badIndex (index : UInt16)
  /-- The bytes of a text constant are not UTF-8. -/
  | badText (index : UInt16)
  /-- A text needs more bytes than a constant can hold. -/
  | textTooLong (bytes : Nat)
  /-- No more constants can be added. -/
  | poolFull
  | trailingBytes (count : Nat)
deriving DecidableEq, Repr

def Fault.message : Fault → String
  | unexpectedEnd => "unexpected end of class file"
  | badMagic => "invalid class file magic header"
  | unknownTag tag => "unsupported constant pool tag " ++ toString tag.toNat
  | badIndex index => "invalid constant pool index " ++ toString index.toNat
  | badText index => "constant pool entry " ++ toString index.toNat ++ " is not valid UTF-8"
  | textTooLong bytes =>
    "malformed descriptor: constant of " ++ toString bytes ++ " bytes exceeds the class file limit"
  | poolFull => "constant pool is full"
  | trailingBytes count => toString count ++ " trailing bytes after class file end"

end JarRefit.ClassFile
