/-!
# Access flags

The 16-bit flag field of classes, members and nested-class records. Three of its bits hold the
visibility; `Visibility` is their decoded, ordered form, and every other bit is carried along.
-/
namespace JarRefit.Access

/-- Who may use a symbol, from the fewest to the most. -/
inductive Visibility where
  | priv
  | pkg
  | prot
  | pub
deriving DecidableEq, Repr

namespace Visibility

/-- The place in the order: `priv` is the narrowest. -/
def rank : Visibility → Nat
  | .priv => 0
  | .pkg => 1
  | .prot => 2
  | .pub => 3

instance : LE Visibility := ⟨fun a b => a.rank ≤ b.rank⟩
instance : LT Visibility := ⟨fun a b => a.rank < b.rank⟩
instance (a b : Visibility) : Decidable (a ≤ b) := inferInstanceAs (Decidable (a.rank ≤ b.rank))
instance (a b : Visibility) : Decidable (a < b) := inferInstanceAs (Decidable (a.rank < b.rank))
instance : Max Visibility := ⟨fun a b => if a ≤ b then b else a⟩
instance : Ord Visibility := ⟨fun a b => compare a.rank b.rank⟩

/-- The bits that write this visibility. -/
def bits : Visibility → UInt16
  | .priv => 0x0002
  | .pkg => 0x0000
  | .prot => 0x0004
  | .pub => 0x0001

/-- The visibility that the bits hold; of several set bits the widest counts. -/
def decode (bits : UInt16) : Visibility :=
  if bits &&& 0x0001 != 0 then .pub
  else if bits &&& 0x0004 != 0 then .prot
  else if bits &&& 0x0002 != 0 then .priv
  else .pkg

/-- The keyword of an access directive; the visibility of the package has a word of its own. -/
def keyword : Visibility → String
  | .priv => "private"
  | .pkg => "default"
  | .prot => "protected"
  | .pub => "public"

theorem decode_bits (v : Visibility) : decode v.bits = v := by cases v <;> decide

end Visibility

/-- A set of access flags. -/
structure Flags where
  bits : UInt16
deriving DecidableEq, Repr

namespace Flags

def empty : Flags := ⟨0⟩
def privateBit : Flags := ⟨0x0002⟩
def staticBit : Flags := ⟨0x0008⟩
def finalBit : Flags := ⟨0x0010⟩
def syntheticBit : Flags := ⟨0x1000⟩
def enumBit : Flags := ⟨0x4000⟩

/-- The bits of the visibility field. -/
def visibilityMask : UInt16 := 0x0007

/-- Whether every flag of `other` is set. -/
def contains (flags other : Flags) : Bool :=
  flags.bits &&& other.bits == other.bits

def union (flags other : Flags) : Flags := ⟨flags.bits ||| other.bits⟩

def inter (flags other : Flags) : Flags := ⟨flags.bits &&& other.bits⟩

/-- The flags that are not in `other`. -/
def remove (flags other : Flags) : Flags := ⟨flags.bits &&& ~~~other.bits⟩

def visibility (flags : Flags) : Visibility :=
  Visibility.decode flags.bits

/-- The flags with the visibility field replaced and every other bit kept. -/
def withVisibility (flags : Flags) (v : Visibility) : Flags :=
  ⟨(flags.bits &&& ~~~visibilityMask) ||| v.bits⟩

/-- The digits of a number in base sixteen, in lower case. -/
def hexDigits (n : Nat) : List Char :=
  Nat.toDigits 16 n

/-- The flags as a number in base sixteen, without leading zeros. -/
def toHex (flags : Flags) : String :=
  String.ofList (hexDigits flags.bits.toNat)

end Flags

end JarRefit.Access
