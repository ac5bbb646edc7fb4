import JarRefit.Proofs.ClassFile.RoundTrip

/-!
# Reading again what was written

A class file that was read is written with the size of its pool, which can be one more than was
announced for it. So it can be written and read again unless that size leaves the 16 bits of the
count: 65535 slots were announced, and a long or a double stands in the last of them.

## Main definitions

* `ClassFile.filled`: class files that have one slot more than was announced for them.
-/
namespace JarRefit

namespace ClassFile

variable {bytes : List UInt8} {c : ClassFile} {count : UInt16}

/-- A pool that was read can be read with its own size as long as that has not left the count. -/
theorem ConstantPool.ReadFrom.readFrom_size_iff {pool : ConstantPool} (h : pool.ReadFrom count) :
    pool.ReadFrom pool.size.toUInt16 ↔ pool.size ≤ 65535 := by
  refine ⟨fun hown => (ConstantPool.readFrom_size_iff.1 hown).2.1, fun hsize => ?_⟩
  refine ConstantPool.readFrom_size_iff.2 ⟨h.wellLaid, hsize, fun bytes hmem => ?_⟩
  obtain ⟨row, hslots, hrow⟩ := h
  rw [← Array.mem_toList_iff, hslots, List.mem_cons] at hmem
  exact hrow.fits _ (hmem.resolve_left (by simp)) (by simp)

/-- A pool leaves the count just if all slots that can be announced are, and a wide constant in the
last of them brings another. -/
theorem ConstantPool.ReadFrom.size_le_iff {pool : ConstantPool} (h : pool.ReadFrom count) :
    pool.size ≤ 65535 ↔ ¬ (count.toNat = 65535 ∧
      ∃ k, pool.entries.getLast? = some (65534, k) ∧ k.isWide = true) := by
  have hcount := count.toNat_lt
  constructor
  · rintro hsize ⟨hfull, hlast⟩
    have hne : count.toNat ≠ pool.size := h.size_ne_iff.2 (.inr (by simpa [hfull] using hlast))
    rcases h.size with hsame | hnone | hmore <;> omega
  · intro hroom
    by_contra hsize
    refine hroom ?_
    have hfull : count.toNat = 65535 := by
      rcases h.size with hsame | hnone | hmore <;> omega
    have hlast := (h.size_ne_iff.1 (by omega)).resolve_left (by omega)
    exact ⟨hfull, by simpa [hfull] using hlast⟩

/-- What was read can be written as long as its pool has not left the count. -/
theorem representable_of_decode (h : decode bytes = .ok c) (hsize : c.pool.size ≤ 65535) :
    c.Representable := by
  obtain ⟨count, hpool, fit, rfl⟩ := decode_eq_ok_iff.1 h
  exact representable_iff.2 ⟨hpool.readFrom_size_iff.2 hsize, fit⟩

/-! ## Full pools -/

/-- A row of slots that holds `n` narrow constants and a wide one behind them. -/
def filledRow (n : Nat) : List Constant :=
  List.replicate n (.integer 0) ++ [.long 42, .unusable]

/-- The row is read when all its slots but the last are announced. -/
theorem slotRow_filledRow (n : Nat) : SlotRow (n + 1) (filledRow n) := by
  induction n with
  | zero => exact .last rfl
  | succ n ih => exact .narrow trivial rfl ih

/-- A class file with `n` narrow constants and a wide one behind them. -/
def filled (n : Nat) : ClassFile where
  minorVersion := 0
  majorVersion := 52
  pool := ⟨(.unusable :: filledRow n).toArray⟩
  access := ⟨1⟩
  thisClass := 0
  superClass := 0
  interfaces := []
  fields := []
  methods := []
  attributes := []

theorem size_filled (n : Nat) : (filled n).pool.size = n + 3 := by
  simp [filled, filledRow, ConstantPool.size]

theorem readFrom_filled {n : Nat} (h : n + 2 ≤ 65535) :
    (filled n).pool.ReadFrom (n + 2).toUInt16 := by
  refine ⟨filledRow n, rfl, ?_⟩
  rw [toNat_toUInt16_of_le h]
  exact slotRow_filledRow n

theorem decode_filled {n : Nat} (h : n + 2 ≤ 65535) :
    decode (encodeAnnouncing (n + 2).toUInt16 (filled n)) = .ok (filled n) := by
  refine decode_eq_ok_iff.2 ⟨_, readFrom_filled h, ?_, rfl⟩
  constructor <;> simp [filled]

/-! ## Reading again -/

/-- What was read is read again from what is written for it, unless 65535 slots were announced and
the last constant is a wide one in the last of them. -/
theorem decode_encode_of_decode_iff (h : decode bytes = .ok c) :
    decode c.encode = .ok c ↔ ¬ (announcedSize? bytes = some 65535 ∧
      ∃ k, c.pool.entries.getLast? = some (65534, k) ∧ k.isWide = true) := by
  obtain ⟨count, hpool, fit, rfl⟩ := decode_eq_ok_iff.1 h
  rw [announcedSize?_encodeAnnouncing, Option.some.injEq, ← hpool.size_le_iff,
    ← hpool.readFrom_size_iff, decode_eq_ok_iff, encode_eq]
  simp only [encodeAnnouncing_inj]
  constructor
  · rintro ⟨_, hown, -, rfl⟩
    exact hown
  · exact fun hown => ⟨_, hown, fit, rfl⟩

theorem decode_encode_filled_iff :
    decode (encodeAnnouncing (65533 + 2).toUInt16 (filled 65533)) = .ok (filled 65533) ∧
      (decode (filled 65533).encode = .ok (filled 65533) ↔
        ¬ (announcedSize? (encodeAnnouncing (65533 + 2).toUInt16 (filled 65533)) = some 65535 ∧
          ∃ k, (filled 65533).pool.entries.getLast? = some (65534, k) ∧ k.isWide = true)) :=
  ⟨decode_filled (by decide), decode_encode_of_decode_iff (decode_filled (by decide))⟩

/-- Not everything that can be read can be written and read again: the fullest pool cannot. -/
theorem decode_encode_filled_ne :
    decode (encodeAnnouncing (65533 + 2).toUInt16 (filled 65533)) = .ok (filled 65533) ∧
      decode (filled 65533).encode ≠ .ok (filled 65533) := by
  have hroom : 65533 + 2 ≤ 65535 := by decide
  refine ⟨decode_filled hroom, fun hagain => ?_⟩
  rw [decode_eq_ok_iff, encode_eq] at hagain
  obtain ⟨_, hown, -, hcount⟩ := hagain
  rw [← encodeAnnouncing_inj.1 hcount, (readFrom_filled hroom).readFrom_size_iff, size_filled]
    at hown
  exact absurd hown (by decide)

end ClassFile

end JarRefit
