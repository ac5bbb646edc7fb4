import JarRefit.ClassFile.Fault

/-!
# Big-endian bytes

Step readers over a list of bytes, each giving back the rest, and the writers that they undo.
-/
namespace JarRefit.ClassFile

/-- Reads a value off the front of the bytes, or tells why there is none. -/
abbrev Decoder (α : Type) := StateT (List UInt8) (Except Fault) α

/-- The first `n` elements and the rest, if there are that many. -/
def splitExact? {α : Type} (n : Nat) (xs : List α) : Option (List α × List α) :=
  go n [] xs
where
  go : Nat → List α → List α → Option (List α × List α)
    | 0, taken, rest => some (taken.reverse, rest)
    | _ + 1, _, [] => none
    | n + 1, taken, x :: rest => go n (x :: taken) rest

theorem splitExact?_go {α : Type} (n : Nat) (taken xs : List α) :
    splitExact?.go n taken xs =
      if n ≤ xs.length then some (taken.reverse ++ xs.take n, xs.drop n) else none := by
  induction n generalizing taken xs with
  | zero => simp [splitExact?.go]
  | succ n ih =>
    cases xs with
    | nil => simp [splitExact?.go]
    | cons x xs => simp [splitExact?.go, ih]

theorem splitExact?_eq {α : Type} (n : Nat) (xs : List α) :
    splitExact? n xs = if n ≤ xs.length then some (xs.take n, xs.drop n) else none := by
  simp [splitExact?, splitExact?_go]

namespace Decoder

def u8 : Decoder UInt8
  | [] => .error .unexpectedEnd
  | b :: rest => .ok (b, rest)

def u16 : Decoder UInt16
  | a :: b :: rest => .ok ((a.toUInt16 <<< 8) ||| b.toUInt16, rest)
  | _ => .error .unexpectedEnd

def u32 : Decoder UInt32
  | a :: b :: c :: d :: rest =>
    .ok ((a.toUInt32 <<< 24) ||| (b.toUInt32 <<< 16) ||| (c.toUInt32 <<< 8) ||| d.toUInt32, rest)
  | _ => .error .unexpectedEnd

def u64 : Decoder UInt64 := do
  let high ← u32
  let low ← u32
  return (high.toUInt64 <<< 32) ||| low.toUInt64

/-- Exactly `n` bytes. -/
def bytes (n : Nat) : Decoder (List UInt8) := fun input =>
  match splitExact? n input with
  | some (taken, rest) => .ok (taken, rest)
  | none => .error .unexpectedEnd

/-- Exactly `n` values. -/
def many {α : Type} (n : Nat) (item : Decoder α) : Decoder (List α) :=
  go n []
where
  go : Nat → List α → Decoder (List α)
    | 0, done => return done.reverse
    | n + 1, done => do
      let x ← item
      go n (x :: done)

/-- A 16-bit count and that many values. -/
def counted {α : Type} (item : Decoder α) : Decoder (List α) := do
  let n ← u16
  many n.toNat item

end Decoder

/-! ### Writing -/

def encodeU16 (n : UInt16) : List UInt8 :=
  [(n >>> 8).toUInt8, n.toUInt8]

def encodeU32 (n : UInt32) : List UInt8 :=
  [(n >>> 24).toUInt8, (n >>> 16).toUInt8, (n >>> 8).toUInt8, n.toUInt8]

def encodeU64 (n : UInt64) : List UInt8 :=
  encodeU32 (n >>> 32).toUInt32 ++ encodeU32 n.toUInt32

/-- The number of values in 16 bits, with higher bits dropped, and the values. -/
def encodeCounted {α : Type} (item : α → List UInt8) (xs : List α) : List UInt8 :=
  encodeU16 xs.length.toUInt16 ++ xs.flatMap item

end JarRefit.ClassFile
