import Mathlib.Data.List.Chain
import JarRefit.ClassFile.Pool
import JarRefit.Proofs.ClassFile.Bytes

/-!
# Constants as bytes

A constant is read exactly, and so is the row of slots behind slot 0: `SlotRow` is its grammar, in
which a wide constant in the last announced slot brings one slot more than was announced.

## Main definitions

* `Constant.Fits`: the constants that can be written.
* `SlotRow`: the slots that are read when a number of slots is announced.
* `ConstantPool.WellLaid`: slot 0 and the slots behind wide constants are the unusable ones.
-/
namespace JarRefit.ClassFile

open Decoder

/-! ## One constant -/

/-- Whether the constant can be written: it has bytes, and its text is not too long for them. -/
def Constant.Fits : Constant → Prop
  | .utf8 bytes => bytes.length ≤ 65535
  | .unusable => False
  | _ => True

namespace Decoder

/-- A value made of what an exact reader takes. -/
theorem Exact.map_iff {α β : Type} {read : Decoder α} {fits : α → Prop} {write : α → List UInt8}
    (exact : Exact read fits write) {f : α → β} {input rest : List UInt8} {y : β} :
    (f <$> read) input = .ok (y, rest) ↔ ∃ x, fits x ∧ input = write x ++ rest ∧ f x = y := by
  simp only [map_eq_ok_iff, exact _ _ _, and_assoc]

end Decoder

theorem decodePair_eq_ok_iff {make : UInt16 → UInt16 → Constant} {input rest : List UInt8}
    {k : Constant} :
    Constant.decodePair make input = .ok (k, rest) ↔
      ∃ a b, input = encodeU16 a ++ (encodeU16 b ++ rest) ∧ make a b = k := by
  simp only [Constant.decodePair, u16_exact.bind_iff, pure_eq_ok_iff, true_and]
  grind

/-- What is read behind a tag was written behind that tag. -/
theorem encode_of_decodeBody {tag : UInt8} {input rest : List UInt8} {k : Constant}
    (h : Constant.decodeBody tag input = .ok (k, rest)) :
    k.Fits ∧ tag :: input = k.encode ++ rest := by
  unfold Constant.decodeBody at h
  split at h
  case h_1 =>
    simp only [u16_exact.bind_iff, (bytes_exact _).map_iff, true_and] at h
    obtain ⟨n, _, rfl, bs, hlen, rfl, rfl⟩ := h
    have hn : bs.length.toUInt16 = n := by
      rw [hlen]
      exact UInt16.ofNat_toNat
    have := n.toNat_lt
    exact ⟨by simp only [Constant.Fits]; omega, by simp [Constant.encode, hn]⟩
  case h_12 =>
    simp only [u8_exact.bind_iff, u16_exact.map_iff, true_and] at h
    obtain ⟨kind, _, rfl, n, rfl, rfl⟩ := h
    exact ⟨trivial, rfl⟩
  case h_8 | h_9 | h_10 | h_11 | h_14 | h_15 =>
    obtain ⟨a, b, rfl, rfl⟩ := decodePair_eq_ok_iff.1 h
    exact ⟨trivial, by simp only [Constant.encode, List.cons_append, List.append_assoc]⟩
  case h_18 => cases h
  all_goals
    simp only [u16_exact.map_iff, u32_exact.map_iff, u64_exact.map_iff, true_and] at h
    obtain ⟨n, rfl, rfl⟩ := h
    exact ⟨trivial, rfl⟩

theorem decode_encode_of_fits {k : Constant} (hk : k.Fits) (rest : List UInt8) :
    Constant.decode (k.encode ++ rest) = .ok (k, rest) := by
  apply u8_exact.bind_iff.2
  cases k with
  | unusable => cases hk
  | utf8 bytes =>
    refine ⟨1, _, trivial, rfl, u16_exact.bind_iff.2 ⟨_, bytes ++ rest, trivial, rfl, ?_⟩⟩
    exact (bytes_exact _).map_iff.2 ⟨_, (toNat_toUInt16_of_le hk).symm, rfl, rfl⟩
  | integer | float => exact ⟨_, _, trivial, rfl, u32_exact.map_iff.2 ⟨_, trivial, rfl, rfl⟩⟩
  | long | double => exact ⟨_, _, trivial, rfl, u64_exact.map_iff.2 ⟨_, trivial, rfl, rfl⟩⟩
  | methodHandle =>
    refine ⟨15, _, trivial, rfl, u8_exact.bind_iff.2 ⟨_, _, trivial, rfl, ?_⟩⟩
    exact u16_exact.map_iff.2 ⟨_, trivial, rfl, rfl⟩
  | classRef | string | methodType | moduleRef | packageRef =>
    exact ⟨_, _, trivial, rfl, u16_exact.map_iff.2 ⟨_, trivial, rfl, rfl⟩⟩
  | fieldRef | methodRef | interfaceMethodRef | nameAndType | dynamic | invokeDynamic =>
    exact ⟨_, _, trivial, rfl, decodePair_eq_ok_iff.2 ⟨_, _, rfl, rfl⟩⟩

theorem constant_exact : Exact Constant.decode Constant.Fits Constant.encode := by
  intro input k rest
  constructor
  · intro h
    obtain ⟨tag, middle, -, rfl, h⟩ := u8_exact.bind_iff.1 h
    exact encode_of_decodeBody h
  · rintro ⟨hk, rfl⟩
    exact decode_encode_of_fits hk rest

/-! ## The slots of a pool -/

/-- The slots from slot 1 on that are read when `n` of them are announced. -/
inductive SlotRow : Nat → List Constant → Prop where
  | nil : SlotRow 0 []
  | narrow {n : Nat} {k : Constant} {row : List Constant} (hk : k.Fits) (hw : k.isWide = false)
      (rest : SlotRow n row) : SlotRow (n + 1) (k :: row)
  | wide {n : Nat} {k : Constant} {row : List Constant} (hw : k.isWide = true)
      (rest : SlotRow n row) : SlotRow (n + 2) (k :: .unusable :: row)
  /-- The slot behind the constant was not announced. -/
  | last {k : Constant} (hw : k.isWide = true) : SlotRow 1 [k, .unusable]

theorem fits_of_isWide {k : Constant} (h : k.isWide = true) : k.Fits := by
  cases k with
  | long | double => trivial
  | _ => cases h

theorem decodeSlots_eq_ok_iff (n : Nat) (slots slots' : Array Constant) (input rest : List UInt8) :
    ConstantPool.decodeSlots n slots input = .ok (slots', rest) ↔
      ∃ row, SlotRow n row ∧ slots'.toList = slots.toList ++ row ∧
        input = row.flatMap Constant.encode ++ rest := by
  fun_induction ConstantPool.decodeSlots n slots generalizing input with
  | case1 slots =>
    rw [pure_eq_ok_iff]
    constructor
    · rintro ⟨rfl, rfl⟩
      exact ⟨[], .nil, by simp, rfl⟩
    · rintro ⟨_, ⟨⟩, hslots, rfl⟩
      exact ⟨Array.toList_inj.1 (by simpa using hslots.symm), rfl⟩
  | case2 slots =>
    -- A wide constant here brings a slot that was not announced.
    simp only [constant_exact.bind_iff, pure_eq_ok_iff]
    constructor
    · rintro ⟨k, _, hk, rfl, rfl, rfl⟩
      by_cases hw : k.isWide = true
      · exact ⟨_, .last hw, by simp [hw], by simp [Constant.encode]⟩
      · exact ⟨_, .narrow hk (by simpa using hw) .nil, by simp [hw], by simp⟩
    · rintro ⟨_, row, hslots, rfl⟩
      cases row with
      | last hw =>
        refine ⟨_, rest, fits_of_isWide hw, by simp [Constant.encode], ?_, rfl⟩
        exact Array.toList_inj.1 (by simp [hw, hslots])
      | narrow hk hw row =>
        cases row
        exact ⟨_, rest, hk, by simp, Array.toList_inj.1 (by simp [hw, hslots]), rfl⟩
  | case3 n slots ihWide ihNarrow =>
    simp only [constant_exact.bind_iff]
    constructor
    · rintro ⟨k, middle, hk, rfl, h⟩
      by_cases hw : k.isWide = true
      · rw [if_pos hw] at h
        obtain ⟨row, hrow, hslots, rfl⟩ := (ihWide k middle).1 h
        exact ⟨_, .wide hw hrow, by simp [hslots], by simp [Constant.encode]⟩
      · rw [if_neg hw] at h
        obtain ⟨row, hrow, hslots, rfl⟩ := (ihNarrow k middle).1 h
        exact ⟨_, .narrow hk (by simpa using hw) hrow, by simp [hslots], by simp⟩
    · rintro ⟨_, row, hslots, rfl⟩
      cases row with
      | narrow hk hw row =>
        refine ⟨_, _, hk, by simp; rfl, ?_⟩
        rw [if_neg (by simp [hw])]
        exact (ihNarrow _ _).2 ⟨_, row, by simp [hslots], rfl⟩
      | wide hw row =>
        refine ⟨_, _, fits_of_isWide hw, by simp [Constant.encode]; rfl, ?_⟩
        rw [if_pos hw]
        exact (ihWide _ _).2 ⟨_, row, by simp [hslots], rfl⟩

/-- Whether one slot can stand right behind another: the slot behind a long or a double is unusable,
and no other is. -/
def Follows (before after : Constant) : Prop :=
  after = .unusable ↔ before.isWide = true

/-- Unusable are slot 0 and the slots right behind a long or a double, each of which has one. -/
structure ConstantPool.WellLaid (pool : ConstantPool) : Prop where
  head : pool.slots.toList.head? = some .unusable
  neighbours : pool.slots.toList.IsChain Follows
  last : ∀ k ∈ pool.slots.toList.getLast?, k.isWide = false

@[simp] theorem isWide_unusable : Constant.unusable.isWide = false := rfl

theorem ne_unusable_of_fits {k : Constant} (h : k.Fits) : k ≠ .unusable := by
  rintro rfl
  exact h

/-- A row of slots is well laid behind any slot that asks for no unusable one. -/
theorem SlotRow.wellLaid {n : Nat} {row : List Constant} (h : SlotRow n row) {before : Constant}
    (hb : before.isWide = false) :
    (before :: row).IsChain Follows ∧ ∀ k ∈ (before :: row).getLast?, k.isWide = false := by
  induction h generalizing before with
  | nil => simp [hb]
  | narrow hk hw rest ih =>
    obtain ⟨hchain, hlast⟩ := ih hw
    exact ⟨List.isChain_cons_cons.2 ⟨by simp [Follows, ne_unusable_of_fits hk, hb], hchain⟩,
      by simpa using hlast⟩
  | wide hw rest ih =>
    obtain ⟨hchain, hlast⟩ := ih isWide_unusable
    refine ⟨?_, by simpa using hlast⟩
    simp [Follows, hb, hw, hchain, ne_unusable_of_fits (fits_of_isWide hw)]
  | last hw => simp [Follows, hb, hw, ne_unusable_of_fits (fits_of_isWide hw)]

theorem SlotRow.fits {n : Nat} {row : List Constant} (h : SlotRow n row) :
    ∀ k ∈ row, k ≠ .unusable → k.Fits := by
  induction h with
  | nil => simp
  | narrow hk hw rest ih => simpa [hk] using ih
  | wide hw rest ih => simpa [fits_of_isWide hw] using ih
  | last hw => simp [fits_of_isWide hw]

/-- A well-laid row whose constants fit is read back when all its slots are announced. -/
theorem slotRow_of_wellLaid (row : List Constant) (before : Constant) (hb : before.isWide = false)
    (hchain : (before :: row).IsChain Follows)
    (hlast : ∀ k ∈ (before :: row).getLast?, k.isWide = false)
    (hfits : ∀ k ∈ row, k ≠ .unusable → k.Fits) : SlotRow row.length row := by
  match row with
  | [] => exact .nil
  | k :: row =>
    obtain ⟨hk, hchain⟩ := List.isChain_cons_cons.1 hchain
    have hk : k.Fits := hfits k (by simp) (by simpa [Follows, hb] using hk)
    cases hw : k.isWide with
    | false =>
      exact .narrow hk hw (slotRow_of_wellLaid row k hw hchain (by simpa using hlast)
        fun j hj => hfits j (by simp [hj]))
    | true =>
      match row with
      | [] => simp [hw] at hlast
      | u :: row =>
        obtain ⟨hu, hchain⟩ := List.isChain_cons_cons.1 hchain
        obtain rfl : u = .unusable := hu.2 hw
        exact .wide hw (slotRow_of_wellLaid row .unusable rfl hchain (by simpa using hlast)
          fun j hj => hfits j (by simp [hj]))

/-- As many slots are read as were announced, or one more behind a wide constant in the last slot
that was announced. -/
theorem SlotRow.length {n : Nat} {row : List Constant} (h : SlotRow n row) :
    row.length = n ∨ ∃ init k, row = init ++ [k, .unusable] ∧ k.isWide = true ∧
      init.length + 1 = n := by
  induction h with
  | nil => exact .inl rfl
  | narrow hk hw rest ih =>
    rcases ih with rfl | ⟨init, k, rfl, hk, rfl⟩
    · exact .inl rfl
    · exact .inr ⟨_ :: init, k, rfl, hk, by simp⟩
  | wide hw rest ih =>
    rcases ih with rfl | ⟨init, k, rfl, hk, rfl⟩
    · exact .inl rfl
    · exact .inr ⟨_ :: _ :: init, k, rfl, hk, by simp⟩
  | last hw => exact .inr ⟨[], _, rfl, hw, rfl⟩

end JarRefit.ClassFile
