import JarRefit.ClassFile.Bytes

/-!
# Records of nested classes

The payload of the attribute that lists the nested classes of a class file: a count and that many
records of eight bytes. What follows the records is kept.
-/
namespace JarRefit.Renaming

open ClassFile

/-- One nested class: the class, the class around it, its simple name and its flags. -/
structure NestedRecord where
  inner : UInt16
  outer : UInt16
  name : UInt16
  access : UInt16
deriving DecidableEq, Repr

namespace NestedRecord

def encode (r : NestedRecord) : List UInt8 :=
  encodeU16 r.inner ++ (encodeU16 r.outer ++ (encodeU16 r.name ++ encodeU16 r.access))

def decode : Decoder NestedRecord := do
  let inner ← Decoder.u16
  let outer ← Decoder.u16
  let name ← Decoder.u16
  return { inner, outer, name, access := ← Decoder.u16 }

/-- The records of a payload and what follows them, if it is long enough for its count. -/
def payload? (info : List UInt8) : Option (List NestedRecord × List UInt8) :=
  (Decoder.counted decode info).toOption

/-- The payload with these records. -/
def encodePayload (records : List NestedRecord) (rest : List UInt8) : List UInt8 :=
  encodeCounted encode records ++ rest

end NestedRecord

end JarRefit.Renaming
