import JarRefit.ClassFile.Constant
import JarRefit.Text.Utf8

/-!
# Constant pools

The numbered constants of a class file. Slot 0 is unusable, and so is the slot after each long or
double. Reading a slot fails for unusable slots and beyond the end; adding a constant appends it,
and never pushes the number of slots past 65535.
-/
namespace JarRefit.ClassFile

/-- The constants of a class file, by slot. -/
structure ConstantPool where
  slots : Array Constant
deriving DecidableEq, Repr

/-- Work on a pool that keeps what was done before a fault. -/
abbrev PoolM := EStateM Fault ConstantPool

namespace ConstantPool

/-- The number of slots that a pool can have, and of bytes that a text constant can have. -/
def limit : Nat := 65535

/-- The pool without constants. -/
def empty : ConstantPool := ⟨#[.unusable]⟩

/-- One past the highest slot. -/
def size (pool : ConstantPool) : Nat :=
  pool.slots.size

/-- Whether no slot after slot 0 exists. -/
def isEmpty (pool : ConstantPool) : Bool :=
  pool.size ≤ 1

/-- The constants with their slots, in order, without the unusable ones. -/
def entries (pool : ConstantPool) : List (UInt16 × Constant) :=
  (pool.slots.toList.zipIdx.filter (fun (c, _) => c != .unusable)).map
    fun (c, i) => (i.toUInt16, c)

/-! ### Resolution -/

def get (pool : ConstantPool) (index : UInt16) : Except Fault Constant :=
  match pool.slots[index.toNat]? with
  | none | some .unusable => .error (.badIndex index)
  | some c => .ok c

/-- The text at an index. -/
def text (pool : ConstantPool) (index : UInt16) : Except Fault String := do
  match ← pool.get index with
  | .utf8 bytes =>
    match Utf8.decode? bytes with
    | some s => .ok s
    | none => .error (.badText index)
  | _ => .error (.badIndex index)

/-- The name of the class at an index. -/
def className (pool : ConstantPool) (index : UInt16) : Except Fault String := do
  match ← pool.get index with
  | .classRef name => pool.text name
  | _ => .error (.badIndex index)

/-- The name and the descriptor at an index. -/
def nameAndType (pool : ConstantPool) (index : UInt16) : Except Fault (String × String) := do
  match ← pool.get index with
  | .nameAndType name descriptor => return (← pool.text name, ← pool.text descriptor)
  | _ => .error (.badIndex index)

/-- The slot of the first constant that satisfies `p`. -/
def findIndex? (pool : ConstantPool) (p : Constant → Bool) : Option UInt16 :=
  (pool.slots.findIdx? fun c => c != .unusable && p c).map (·.toUInt16)

/-- The slot of the first constant that holds a text. -/
def findText? (pool : ConstantPool) (s : String) : Option UInt16 :=
  let bytes := Utf8.encode s
  pool.findIndex? (· == .utf8 bytes)

/-! ### Changes -/

/-- The pool with the constant at an index replaced. -/
def set (pool : ConstantPool) (index : UInt16) (c : Constant) : Except Fault ConstantPool := do
  let _ ← pool.get index
  return ⟨pool.slots.setIfInBounds index.toNat c⟩

/-- Adds a constant and gives its slot. -/
def push (c : Constant) : PoolM UInt16 := fun pool =>
  if pool.size + c.width > limit then .error .poolFull pool
  else
    let slots := pool.slots.push c
    .ok pool.size.toUInt16 ⟨if c.isWide then slots.push .unusable else slots⟩

/-- Adds a text constant; a text of more bytes than a constant can hold is refused. -/
def pushText (s : String) : PoolM UInt16 :=
  if s.utf8ByteSize > limit then throw (.textTooLong s.utf8ByteSize)
  else push (.utf8 (Utf8.encode s))

/-- The slot of a text, which is added if no constant holds it. -/
def internText (s : String) : PoolM UInt16 := do
  match (← EStateM.get).findText? s with
  | some index => return index
  | none => pushText s

/-- The slot of a class with a name, which is added if there is none. -/
def internClass (name : String) : PoolM UInt16 := do
  let text ← internText name
  match (← EStateM.get).findIndex? (· == .classRef text) with
  | some index => return index
  | none => push (.classRef text)

/-! ### Bytes -/

/-- The constants of the slots from one on; a wide constant brings an unusable slot with it, even
when it stands in the last slot that was announced. -/
def decodeSlots : Nat → Array Constant → Decoder (Array Constant)
  | 0, slots => return slots
  | 1, slots => do
    let c ← Constant.decode
    return if c.isWide then (slots.push c).push .unusable else slots.push c
  | n + 2, slots => do
    let c ← Constant.decode
    if c.isWide then decodeSlots n ((slots.push c).push .unusable)
    else decodeSlots (n + 1) (slots.push c)

/-- A pool: the number of slots and the constants from slot 1 on. -/
def decode : Decoder ConstantPool := do
  let count ← Decoder.u16
  return ⟨← decodeSlots (count.toNat - 1) #[.unusable]⟩

/-- The number of slots in 16 bits, with higher bits dropped, and the constants from slot 1 on. -/
def encode (pool : ConstantPool) : List UInt8 :=
  encodeU16 pool.size.toUInt16 ++ (pool.slots.toList.drop 1).flatMap Constant.encode

end ConstantPool

end JarRefit.ClassFile
