import JarRefit.ClassFile.Basic
import JarRefit.Proofs.ClassFile.Constants
import JarRefit.Proofs.ClassFile.Growth

/-!
# Class files as bytes

`ClassFile.decode` accepts just the bytes that `ClassFile.encodeAnnouncing` writes, for any number
of announced slots that its pool can be read from. Writing after reading and reading after writing
are the two sides of this one law: a class file is written with the size of its pool.

## Main definitions

* `ClassFile.announcedSize?`: the number of slots that stands in the bytes.
* `ClassFile.Representable`: the class files that their bytes say all of.
-/
namespace JarRefit

namespace ClassFile

open Decoder

/-! ## Attributes and members -/

/-- Whether the length of the payload fits into its 32 bits. -/
def Attribute.Fits (a : Attribute) : Prop :=
  a.info.length < 2 ^ 32

/-- Whether the attributes can be counted in 16 bits, and each of them fits. -/
def Member.Fits (m : Member) : Prop :=
  m.attributes.length ≤ 65535 ∧ ∀ a ∈ m.attributes, a.Fits

theorem attribute_exact : Exact Attribute.decode Attribute.Fits Attribute.encode := by
  intro input a rest
  simp only [Attribute.decode, u16_exact.bind_iff, u32_exact.bind_iff, (bytes_exact _).bind_iff,
    pure_eq_ok_iff, true_and, Attribute.encode, List.append_assoc]
  constructor
  · rintro ⟨name, _, rfl, n, _, rfl, info, _, hlen, rfl, rfl, rfl⟩
    have hn : info.length.toUInt32 = n := by
      rw [hlen]
      exact UInt32.ofNat_toNat
    have := n.toNat_lt
    exact ⟨by simp only [Attribute.Fits]; omega, by simp only [hn, id_eq]⟩
  · rintro ⟨hfits, rfl⟩
    exact ⟨_, _, rfl, _, _, rfl, _, _, (toNat_toUInt32_of_lt hfits).symm, rfl, rfl, rfl⟩

theorem member_exact : Exact Member.decode Member.Fits Member.encode := by
  intro input m rest
  simp only [Member.decode, u16_exact.bind_iff, (counted_exact attribute_exact).bind_iff,
    pure_eq_ok_iff, true_and, Member.encode, List.append_assoc]
  constructor
  · rintro ⟨access, _, rfl, name, _, rfl, descriptor, _, rfl, attributes, _, hfits, rfl, rfl, rfl⟩
    exact ⟨hfits, rfl⟩
  · rintro ⟨hfits, rfl⟩
    exact ⟨_, _, rfl, _, _, rfl, _, _, rfl, _, _, hfits, rfl, rfl, rfl⟩

/-! ## Pools -/

/-- Whether the slots of the pool are those that are read when `count` slots are announced. -/
def ConstantPool.ReadFrom (pool : ConstantPool) (count : UInt16) : Prop :=
  ∃ row, pool.slots.toList = .unusable :: row ∧ SlotRow (count.toNat - 1) row

/-- The constants of the slots from one on, one behind the other. -/
def ConstantPool.body (pool : ConstantPool) : List UInt8 :=
  (pool.slots.toList.drop 1).flatMap Constant.encode

theorem decodePool_eq_ok_iff {input rest : List UInt8} {pool : ConstantPool} :
    ConstantPool.decode input = .ok (pool, rest) ↔
      ∃ count, pool.ReadFrom count ∧ input = encodeU16 count ++ (pool.body ++ rest) := by
  simp only [ConstantPool.decode, u16_exact.bind_iff, bind_eq_ok_iff, pure_eq_ok_iff, true_and,
    decodeSlots_eq_ok_iff]
  constructor
  · rintro ⟨count, _, rfl, slots, _, ⟨row, hrow, hslots, rfl⟩, rfl, rfl⟩
    exact ⟨count, ⟨row, hslots, hrow⟩, by simp [ConstantPool.body, hslots]⟩
  · rintro ⟨count, ⟨row, hslots, hrow⟩, rfl⟩
    exact ⟨count, _, rfl, pool.slots, rest,
      ⟨row, hrow, hslots, by simp [ConstantPool.body, hslots]⟩,
      rfl, rfl⟩

/-- After the reader of pools the sequence goes on behind the constants. -/
theorem decodePool_bind_iff {α : Type} {next : ConstantPool → Decoder α} {input rest : List UInt8}
    {y : α} :
    (ConstantPool.decode >>= next) input = .ok (y, rest) ↔
      ∃ pool middle count, pool.ReadFrom count ∧
        input = encodeU16 count ++ (pool.body ++ middle) ∧ next pool middle = .ok (y, rest) := by
  simp only [bind_eq_ok_iff, decodePool_eq_ok_iff]
  grind

theorem encodePool_eq (pool : ConstantPool) :
    pool.encode = encodeU16 pool.size.toUInt16 ++ pool.body := rfl

/-! ## Class files -/

/-- Whether the tables behind the pool can be counted, and what is in them fits. -/
structure TablesFit (c : ClassFile) : Prop where
  interfaces : c.interfaces.length ≤ 65535
  fields : c.fields.length ≤ 65535 ∧ ∀ m ∈ c.fields, m.Fits
  methods : c.methods.length ≤ 65535 ∧ ∀ m ∈ c.methods, m.Fits
  attributes : c.attributes.length ≤ 65535 ∧ ∀ a ∈ c.attributes, a.Fits

/-- The bytes of the class file behind its pool. -/
def encodeTables (c : ClassFile) : List UInt8 :=
  encodeU16 c.access.bits ++ (encodeU16 c.thisClass ++ (encodeU16 c.superClass ++
    (encodeCounted encodeU16 c.interfaces ++ (encodeCounted Member.encode c.fields ++
      (encodeCounted Member.encode c.methods ++ encodeCounted Attribute.encode c.attributes)))))

/-- The bytes of the class file with a number of slots that need not be that of its pool. -/
def encodeAnnouncing (count : UInt16) (c : ClassFile) : List UInt8 :=
  encodeU32 magic ++ (encodeU16 c.minorVersion ++ (encodeU16 c.majorVersion ++
    (encodeU16 count ++ (c.pool.body ++ c.encodeTables))))

theorem encode_eq (c : ClassFile) : c.encode = encodeAnnouncing c.pool.size.toUInt16 c := by
  simp only [encode, encodePool_eq, encodeAnnouncing, encodeTables, List.append_assoc]

/-- The law of the reader: what it takes was written with some number of announced slots. -/
theorem decodeFront_eq_ok_iff {input rest : List UInt8} {c : ClassFile} :
    decodeFront input = .ok (c, rest) ↔
      ∃ count, c.pool.ReadFrom count ∧ c.TablesFit ∧
        input = encodeAnnouncing count c ++ rest := by
  rw [decodeFront, u32_exact.bind_iff]
  constructor
  · rintro ⟨n, _, -, rfl, h⟩
    obtain rfl : n = magic := by
      by_contra hn
      rw [if_pos (by simpa using hn)] at h
      cases h
    simp only [bne_self_eq_false, Bool.false_eq_true, if_false, u16_exact.bind_iff,
      decodePool_bind_iff, (counted_exact u16_exact).bind_iff,
      (counted_exact member_exact).bind_iff, (counted_exact attribute_exact).bind_iff,
      pure_eq_ok_iff, true_and] at h
    obtain ⟨minor, _, rfl, major, _, rfl, pool, _, count, hpool, rfl, access, _, rfl, this, _, rfl,
      super, _, rfl, interfaces, _, ⟨hinterfaces, -⟩, rfl, fields, _, hfields, rfl, methods, _,
      hmethods, rfl, attributes, _, hattributes, rfl, rfl, rfl⟩ := h
    exact ⟨count, hpool, ⟨hinterfaces, hfields, hmethods, hattributes⟩,
      by simp only [encodeAnnouncing, encodeTables, List.append_assoc]⟩
  · rintro ⟨count, hpool, fit, rfl⟩
    simp only [encodeAnnouncing, encodeTables, List.append_assoc]
    refine ⟨magic, _, trivial, rfl, ?_⟩
    simp only [bne_self_eq_false, Bool.false_eq_true, if_false, u16_exact.bind_iff,
      decodePool_bind_iff, (counted_exact u16_exact).bind_iff,
      (counted_exact member_exact).bind_iff, (counted_exact attribute_exact).bind_iff,
      pure_eq_ok_iff, true_and]
    exact ⟨_, _, rfl, _, _, rfl, _, _, count, hpool, rfl, _, _, rfl, _, _, rfl, _, _, rfl, _, _,
      ⟨fit.interfaces, fun _ _ => trivial⟩, rfl, _, _, fit.fields, rfl, _, _, fit.methods, rfl,
      _, _, fit.attributes, rfl, rfl, rfl⟩

theorem decode_eq_ok_iff {bytes : List UInt8} {c : ClassFile} :
    decode bytes = .ok c ↔
      ∃ count, c.pool.ReadFrom count ∧ c.TablesFit ∧ bytes = encodeAnnouncing count c := by
  have front : decodeFront bytes = .ok (c, []) ↔ _ := decodeFront_eq_ok_iff
  simp only [List.append_nil] at front
  rw [← front, decode]
  cases h : decodeFront bytes with
  | error e => simp [bind, Except.bind]
  | ok p =>
    obtain ⟨c', rest⟩ := p
    cases rest with
    | nil => simp [bind, Except.bind, pure, Except.pure]
    | cons b rest => simp [bind, Except.bind, throw, throwThe, MonadExceptOf.throw]

/-! ## The announced size -/

/-- The number of slots that the bytes of a class file announce: the 16 bits at offset 8. -/
def announcedSize? (bytes : List UInt8) : Option Nat := do
  let high ← bytes[8]?
  let low ← bytes[9]?
  return high.toNat * 2 ^ 8 + low.toNat

theorem announcedSize?_encodeAnnouncing (count : UInt16) (c : ClassFile) :
    announcedSize? (encodeAnnouncing count c) = some count.toNat := by
  have h : announcedSize? (encodeAnnouncing count c) =
      some ((count >>> 8).toUInt8.toNat * 2 ^ 8 + count.toUInt8.toNat) := rfl
  rw [h, ← toNat_join16, join_encodeU16]

theorem encodeAnnouncing_inj {m n : UInt16} {c : ClassFile} :
    encodeAnnouncing m c = encodeAnnouncing n c ↔ m = n := by
  constructor
  · intro h
    simp only [encodeAnnouncing, List.append_cancel_left_eq, List.append_cancel_right_eq] at h
    exact encodeU16_inj h
  · rintro rfl
    rfl

/-- How the size of a pool can differ from the number of slots that were announced for it. -/
theorem ConstantPool.ReadFrom.size {pool : ConstantPool} {count : UInt16}
    (h : pool.ReadFrom count) :
    (0 < pool.size ∧ pool.size = count.toNat) ∨ (count.toNat = 0 ∧ pool.size = 1) ∨
      pool.size = count.toNat + 1 ∧ ∃ init k, pool.slots.toList = init ++ [k, .unusable] ∧
        k.isWide = true ∧ init.length + 1 = count.toNat := by
  obtain ⟨row, hslots, hrow⟩ := h
  have hsize : pool.size = row.length + 1 := by
    simp [ConstantPool.size, ← Array.length_toList, hslots]
  rcases hrow.length with hlen | ⟨init, k, rfl, hk, hlen⟩
  · omega
  · simp only [List.length_append, List.length_cons, List.length_nil] at hsize
    exact .inr (.inr ⟨by omega, .unusable :: init, k, hslots, hk, by simp; omega⟩)

theorem ConstantPool.getLast?_entries {pool : ConstantPool} {init : List Constant} {k : Constant}
    (hslots : pool.slots.toList = init ++ [k, .unusable]) (hk : k ≠ .unusable) :
    pool.entries.getLast? = some (init.length.toUInt16, k) := by
  simp [ConstantPool.entries, hslots, List.zipIdx_append, hk]

theorem ConstantPool.ReadFrom.wellLaid {pool : ConstantPool} {count : UInt16}
    (h : pool.ReadFrom count) : pool.WellLaid := by
  obtain ⟨row, hslots, hrow⟩ := h
  obtain ⟨hchain, hlast⟩ := hrow.wellLaid isWide_unusable
  exact ⟨by simp [hslots], hslots ▸ hchain, hslots ▸ hlast⟩

/-- A wide constant never stands in the last slot of a well-laid pool. -/
theorem ConstantPool.WellLaid.lt_of_isWide {pool : ConstantPool} (h : pool.WellLaid) {i : Nat}
    {k : Constant} (hi : pool.slots[i]? = some k) (hk : k.isWide = true) : i + 1 < pool.size := by
  obtain ⟨hlt, -⟩ := Array.getElem?_eq_some_iff.1 hi
  by_contra hge
  have hi : i = pool.slots.size - 1 := by
    simp only [ConstantPool.size] at hge
    omega
  have hlast := h.last k (by rw [List.getLast?_eq_getElem?]; simpa [← hi] using ‹_›)
  rw [hlast] at hk
  cases hk

/-- Read from bytes, a pool is one slot larger than announced just if its last constant is a wide
one in the last slot that was announced, and else only if no slot was announced. -/
theorem ConstantPool.ReadFrom.size_ne_iff {pool : ConstantPool} {count : UInt16}
    (h : pool.ReadFrom count) :
    count.toNat ≠ pool.size ↔ count.toNat = 0 ∨
      ∃ k, pool.entries.getLast? = some ((count.toNat - 1).toUInt16, k) ∧ k.isWide = true := by
  constructor
  · intro hne
    rcases h.size with ⟨-, hsize⟩ | ⟨hzero, -⟩ | ⟨-, init, k, hslots, hk, hlen⟩
    · exact absurd hsize.symm hne
    · exact .inl hzero
    · refine .inr ⟨k, ?_, hk⟩
      rw [ConstantPool.getLast?_entries hslots (ne_unusable_of_fits (fits_of_isWide hk)), ← hlen]
      rfl
  · rintro (hzero | ⟨k, hlast, hk⟩) hsize
    · rcases h.size with ⟨hpos, -⟩ | ⟨-, hone⟩ | ⟨hmore, -⟩ <;> omega
    · obtain ⟨i, hi, -, hindex⟩ := ConstantPool.mem_entries.1 (List.mem_of_getLast? hlast)
      have hlt := h.wellLaid.lt_of_isWide hi hk
      have hcount := count.toNat_lt
      rw [← UInt16.toNat_inj, toNat_toUInt16_of_le (by omega), toNat_toUInt16_of_le (by omega)]
        at hindex
      omega

/-- What is written after reading is what was read, unless the announced number of slots is not the
size of the pool: none was announced, or the last constant needs one more. -/
theorem encode_eq_iff_of_decode {bytes : List UInt8} {c : ClassFile} (h : decode bytes = .ok c) :
    ∃ count, announcedSize? bytes = some count ∧
      (c.encode = bytes ↔ count = c.pool.size) ∧
      (count ≠ c.pool.size ↔ count = 0 ∨
        ∃ k, c.pool.entries.getLast? = some ((count - 1).toUInt16, k) ∧ k.isWide = true) := by
  obtain ⟨count, hpool, -, rfl⟩ := decode_eq_ok_iff.1 h
  refine ⟨count.toNat, announcedSize?_encodeAnnouncing count c, ?_, hpool.size_ne_iff⟩
  have := count.toNat_lt
  rw [encode_eq, encodeAnnouncing_inj, ← UInt16.toNat_inj, Nat.toUInt16_eq, UInt16.toNat_ofNat']
  rcases hpool.size with hsize | hsize | ⟨hsize, -⟩ <;> omega

/-- A class whose last constant is a long. -/
def lastWide : ClassFile where
  minorVersion := 0
  majorVersion := 52
  pool := ⟨#[.unusable, .long 42, .unusable]⟩
  access := ⟨1⟩
  thisClass := 0
  superClass := 0
  interfaces := []
  fields := []
  methods := []
  attributes := []

theorem encode_lastWide_iff :
    decode (encodeAnnouncing 2 lastWide) = .ok lastWide ∧
      ∃ count, announcedSize? (encodeAnnouncing 2 lastWide) = some count ∧
        (lastWide.encode = encodeAnnouncing 2 lastWide ↔ count = lastWide.pool.size) ∧
        (count ≠ lastWide.pool.size ↔ count = 0 ∨
          ∃ k, lastWide.pool.entries.getLast? = some ((count - 1).toUInt16, k) ∧
            k.isWide = true) :=
  ⟨rfl, encode_eq_iff_of_decode rfl⟩

/-- A pool that was read has an index of 16 bits for every slot. -/
theorem ConstantPool.ReadFrom.addressable {pool : ConstantPool} {count : UInt16}
    (h : pool.ReadFrom count) : pool.Addressable := by
  have := count.toNat_lt
  simp only [ConstantPool.Addressable]
  rcases h.size with hsize | hsize | ⟨hsize, -⟩ <;> omega

theorem ConstantPool.ReadFrom.headed {pool : ConstantPool} {count : UInt16}
    (h : pool.ReadFrom count) : pool.Headed := by
  obtain ⟨row, hslots, -⟩ := h
  rw [ConstantPool.Headed, ← Array.getElem?_toList, hslots]
  rfl

/-! ## What can be written -/

/-- The class files whose lengths fit into the room that the format has for them, and whose pool has
an unusable slot exactly where one is read. -/
structure Representable (c : ClassFile) : Prop where
  pool : c.pool.WellLaid
  size : c.pool.size ≤ 65535
  texts : ∀ bytes, .utf8 bytes ∈ c.pool.slots → bytes.length ≤ 65535
  interfaces : c.interfaces.length ≤ 65535
  fields : c.fields.length ≤ 65535
  methods : c.methods.length ≤ 65535
  attributes : c.attributes.length ≤ 65535
  memberAttributes : ∀ m ∈ c.fields ++ c.methods, m.attributes.length ≤ 65535
  payloads : ∀ a ∈ c.attributes ++ (c.fields ++ c.methods).flatMap (·.attributes),
    a.info.length < 2 ^ 32

theorem Constant.fits_iff {k : Constant} (hk : k ≠ .unusable) :
    k.Fits ↔ ∀ bytes, k = .utf8 bytes → bytes.length ≤ 65535 := by
  cases k with
  | utf8 bytes => simp [Constant.Fits]
  | unusable => exact absurd rfl hk
  | _ => simp [Constant.Fits]

/-- A pool is read from its own size just if it is well laid, small enough and of short texts. -/
theorem ConstantPool.readFrom_size_iff {pool : ConstantPool} :
    pool.ReadFrom pool.size.toUInt16 ↔ pool.WellLaid ∧ pool.size ≤ 65535 ∧
      ∀ bytes, .utf8 bytes ∈ pool.slots → bytes.length ≤ 65535 := by
  constructor
  · intro h
    refine ⟨h.wellLaid, ?_, ?_⟩
    · have hcut : pool.size.toUInt16.toNat = pool.size % 2 ^ 16 := by
        rw [Nat.toUInt16_eq, UInt16.toNat_ofNat']
      rcases h.size with hsize | hsize | ⟨hsize, -⟩ <;> omega
    · intro bytes hmem
      obtain ⟨row, hslots, hrow⟩ := h
      rw [← Array.mem_toList_iff, hslots, List.mem_cons] at hmem
      exact hrow.fits _ (hmem.resolve_left (by simp)) (by simp)
  · rintro ⟨laid, hsize, htexts⟩
    obtain ⟨row, hslots⟩ : ∃ row, pool.slots.toList = .unusable :: row :=
      List.head?_eq_some_iff.1 laid.head
    have hlen : pool.size = row.length + 1 := by
      simp [ConstantPool.size, ← Array.length_toList, hslots]
    refine ⟨row, hslots, ?_⟩
    rw [toNat_toUInt16_of_le hsize, hlen, Nat.add_sub_cancel]
    refine slotRow_of_wellLaid row .unusable rfl (hslots ▸ laid.neighbours) (hslots ▸ laid.last) ?_
    intro k hk hne
    refine (Constant.fits_iff hne).2 fun bytes heq => htexts bytes ?_
    rw [← Array.mem_toList_iff, hslots, ← heq]
    exact List.mem_cons_of_mem _ hk

theorem representable_iff {c : ClassFile} :
    c.Representable ↔ c.pool.ReadFrom c.pool.size.toUInt16 ∧ c.TablesFit := by
  rw [ConstantPool.readFrom_size_iff]
  constructor
  · intro h
    refine ⟨⟨h.pool, h.size, h.texts⟩, h.interfaces, ⟨h.fields, ?_⟩, ⟨h.methods, ?_⟩, h.attributes,
      ?_⟩
    · intro m hm
      exact ⟨h.memberAttributes m (by simp [hm]), fun a ha => h.payloads a (by simp; grind)⟩
    · intro m hm
      exact ⟨h.memberAttributes m (by simp [hm]), fun a ha => h.payloads a (by simp; grind)⟩
    · exact fun a ha => h.payloads a (by simp [ha])
  · rintro ⟨⟨laid, hsize, htexts⟩, fit⟩
    refine ⟨laid, hsize, htexts, fit.interfaces, fit.fields.1, fit.methods.1, fit.attributes.1,
      ?_, ?_⟩
    · intro m hm
      rcases List.mem_append.1 hm with hm | hm
      · exact (fit.fields.2 m hm).1
      · exact (fit.methods.2 m hm).1
    · intro a ha
      rcases List.mem_append.1 ha with ha | ha
      · exact fit.attributes.2 a ha
      · obtain ⟨m, hm, ha⟩ := List.mem_flatMap.1 ha
        rcases List.mem_append.1 hm with hm | hm
        · exact (fit.fields.2 m hm).2 a ha
        · exact (fit.methods.2 m hm).2 a ha

theorem decode_encode_of_representable {c : ClassFile} (h : c.Representable) :
    decode c.encode = .ok c := by
  obtain ⟨hpool, fit⟩ := representable_iff.1 h
  rw [encode_eq]
  exact decode_eq_ok_iff.2 ⟨_, hpool, fit, rfl⟩

theorem representable_of_decode_encode {c : ClassFile} (h : decode c.encode = .ok c) :
    c.Representable := by
  rw [encode_eq] at h
  obtain ⟨count, hpool, fit, hcount⟩ := decode_eq_ok_iff.1 h
  rw [← encodeAnnouncing_inj.1 hcount] at hpool
  exact representable_iff.2 ⟨hpool, fit⟩

/-- Reading undoes writing just on the class files that can be represented. -/
theorem decode_encode_iff (c : ClassFile) : decode c.encode = .ok c ↔ c.Representable :=
  ⟨representable_of_decode_encode, decode_encode_of_representable⟩

end ClassFile

end JarRefit
