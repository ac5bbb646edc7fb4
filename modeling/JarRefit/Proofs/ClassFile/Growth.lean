import Mathlib.Algebra.Group.Nat.Defs
import JarRefit.ClassFile.Pool
import JarRefit.Proofs.Steps

/-!
# Pools that grow

What a slot resolves to, and what keeps it so: later constants are appended, and the text and
name-and-type constants that others share stay as they are.

## Main definitions

* `ConstantPool.Addressable`: every slot has a 16-bit index.
* `ConstantPool.Keeps`: the shared constants of one pool are in another.
* `ConstantPool.Grows`: one pool is another with shared constants appended.
* `ConstantPool.Replaces`: one pool is another so grown, with the constant of one slot replaced.
* `ConstantPool.WithinLimits`: no more slots and no longer texts than can be written.
-/
namespace JarRefit.ClassFile

/-- Text and name-and-type constants, to which several constants can point. -/
def Constant.isShared : Constant → Bool
  | .utf8 _ | .nameAndType _ _ => true
  | _ => false

/-- The slots that a constant takes: one more follows a long or a double. -/
def Constant.slots (k : Constant) : List Constant :=
  if k.isWide then [k, .unusable] else [k]

@[simp]
theorem Constant.length_slots (k : Constant) : k.slots.length = k.width := by
  cases hw : k.isWide <;> simp [Constant.slots, Constant.width, hw]

theorem Constant.mem_slots {k k' : Constant} (h : k' ∈ k.slots) : k' = k ∨ k' = .unusable := by
  unfold Constant.slots at h
  split at h <;> simp_all

namespace ConstantPool

variable {pool old new later : ConstantPool}

/-! ## Resolution through slots -/

theorem get_eq_ok_iff {i : UInt16} {k : Constant} :
    pool.get i = .ok k ↔ pool.slots[i.toNat]? = some k ∧ k ≠ .unusable := by
  unfold get
  split <;> grind

theorem text_eq_ok_iff {i : UInt16} {s : String} :
    pool.text i = .ok s ↔ pool.slots[i.toNat]? = some (.utf8 (Utf8.encode s)) := by
  unfold text
  cases h : pool.get i with
  | error e =>
    have : ¬ ∃ k, pool.get i = .ok k := by simp [h]
    simp only [get_eq_ok_iff] at this
    simp only [bind, Except.bind, reduceCtorEq, false_iff]
    exact fun hs => this ⟨_, hs, by simp⟩
  | ok k =>
    obtain ⟨hk, -⟩ := get_eq_ok_iff.1 h
    rw [hk]
    cases k with
    | utf8 bytes =>
      cases hb : Utf8.decode? bytes with
      | none =>
        have : bytes ≠ Utf8.encode s := fun h => by simp [Utf8.decode?_eq_some_iff.2 h] at hb
        simp [bind, Except.bind, hb, this]
      | some t =>
        obtain rfl := Utf8.decode?_eq_some_iff.1 hb
        simp only [bind, Except.bind, hb, Except.ok.injEq, Option.some.injEq, Constant.utf8.injEq]
        exact ⟨congrArg _, Utf8.encode_injective⟩
    | _ => simp [bind, Except.bind]

theorem className_eq_ok_iff {i : UInt16} {s : String} :
    pool.className i = .ok s ↔
      ∃ n, pool.slots[i.toNat]? = some (.classRef n) ∧ pool.text n = .ok s := by
  rw [className, except_bind_eq_ok_iff]
  constructor
  · rintro ⟨k, hk, h⟩
    cases k with
    | classRef n => exact ⟨n, (get_eq_ok_iff.1 hk).1, h⟩
    | _ => cases h
  · rintro ⟨n, hn, h⟩
    exact ⟨_, get_eq_ok_iff.2 ⟨hn, by simp⟩, h⟩

theorem nameAndType_eq_ok_iff {i : UInt16} {name descriptor : String} :
    pool.nameAndType i = .ok (name, descriptor) ↔
      ∃ n d, pool.slots[i.toNat]? = some (.nameAndType n d) ∧ pool.text n = .ok name ∧
        pool.text d = .ok descriptor := by
  rw [nameAndType, except_bind_eq_ok_iff]
  constructor
  · rintro ⟨k, hk, h⟩
    cases k with
    | nameAndType n d =>
      obtain ⟨_, hname, h⟩ := except_bind_eq_ok_iff.1 h
      obtain ⟨_, hdescriptor, h⟩ := except_bind_eq_ok_iff.1 h
      cases h
      exact ⟨n, d, (get_eq_ok_iff.1 hk).1, hname, hdescriptor⟩
    | _ => cases h
  · rintro ⟨n, d, hk, hname, hdescriptor⟩
    exact ⟨_, get_eq_ok_iff.2 ⟨hk, by simp⟩, by simp [hname, hdescriptor, bind, Except.bind]; rfl⟩

theorem mem_entries {i : UInt16} {k : Constant} :
    (i, k) ∈ pool.entries ↔
      ∃ j : Nat, pool.slots[j]? = some k ∧ k ≠ .unusable ∧ j.toUInt16 = i := by
  simp [entries, List.mem_zipIdx_iff_getElem?]
  grind

/-! ## Shared constants stay -/

/-- Each shared constant of the old pool stands in the same slot of the new one. -/
def Keeps (old new : ConstantPool) : Prop :=
  ∀ (i : Nat) k, k.isShared = true → old.slots[i]? = some k → new.slots[i]? = some k

theorem Keeps.refl (pool : ConstantPool) : Keeps pool pool := fun _ _ _ h => h

theorem Keeps.trans (h : Keeps old new) (g : Keeps new later) : Keeps old later :=
  fun i k hk hold => g i k hk (h i k hk hold)

theorem Keeps.text (h : Keeps old new) {i : UInt16} {s : String} (hs : old.text i = .ok s) :
    new.text i = .ok s :=
  text_eq_ok_iff.2 (h _ _ rfl (text_eq_ok_iff.1 hs))

theorem Keeps.nameAndType (h : Keeps old new) {i : UInt16} {p : String × String}
    (hp : old.nameAndType i = .ok p) : new.nameAndType i = .ok p := by
  obtain ⟨n, d, hk, hname, hdescriptor⟩ := nameAndType_eq_ok_iff.1 hp
  exact nameAndType_eq_ok_iff.2 ⟨n, d, h _ _ rfl hk, h.text hname, h.text hdescriptor⟩

/-! ## Appended constants -/

/-- The new pool is the old one with shared constants appended. -/
def Grows (old new : ConstantPool) : Prop :=
  ∃ added : List Constant, new.slots.toList = old.slots.toList ++ added ∧
    ∀ k ∈ added, k.isShared = true

theorem Grows.refl (pool : ConstantPool) : Grows pool pool := ⟨[], by simp, by simp⟩

theorem Grows.trans (h : Grows old new) (g : Grows new later) : Grows old later := by
  obtain ⟨added, hslots, hshared⟩ := h
  obtain ⟨more, hslots', hshared'⟩ := g
  refine ⟨added ++ more, by rw [hslots', hslots, List.append_assoc], ?_⟩
  rintro k hk
  rcases List.mem_append.1 hk with hk | hk
  · exact hshared k hk
  · exact hshared' k hk

/-- A constant that stands in a slot still stands there after growth. -/
theorem Grows.getElem? (h : Grows old new) {i : Nat} {k : Constant}
    (hk : old.slots[i]? = some k) : new.slots[i]? = some k := by
  obtain ⟨added, hslots, -⟩ := h
  rw [← Array.getElem?_toList] at hk ⊢
  rw [hslots, List.getElem?_append_left (List.getElem?_eq_some_iff.1 hk).1, hk]

theorem Grows.keeps (h : Grows old new) : Keeps old new := fun _ _ _ hk => h.getElem? hk

/-- What stands in a slot after growth stood there before, or is shared. -/
theorem Grows.getElem?_or (h : Grows old new) {i : Nat} {k : Constant}
    (hk : new.slots[i]? = some k) : old.slots[i]? = some k ∨ k.isShared = true := by
  obtain ⟨added, hslots, hshared⟩ := h
  rw [← Array.getElem?_toList, hslots, List.getElem?_append] at hk
  split at hk
  · exact .inl (by rwa [← Array.getElem?_toList])
  · exact .inr (hshared k (List.mem_of_getElem? hk))

theorem Grows.push {k : Constant} (hslots : new.slots = old.slots.push k)
    (hk : k.isShared = true) : Grows old new :=
  ⟨[k], by simp [hslots], by simpa using hk⟩

theorem Grows.size_le (h : Grows old new) : old.size ≤ new.size := by
  obtain ⟨added, hslots, -⟩ := h
  simp [ConstantPool.size, ← Array.length_toList, hslots]

/-- A constant is added if there is room for the slots it takes, behind all others. -/
theorem push_eq_ok_iff {k : Constant} {i : UInt16} :
    push k old = .ok i new ↔ old.size + k.width ≤ limit ∧ i.toNat = old.size ∧
      new.slots.toList = old.slots.toList ++ k.slots := by
  unfold push
  split
  · next hfull => simp [Nat.not_le.2 hfull]
  · next hroom =>
    have hroom := Nat.not_lt.1 hroom
    have hindex : old.size.toUInt16.toNat = old.size := by
      rw [Nat.toUInt16_eq, UInt16.toNat_ofNat']
      have : limit < 2 ^ 16 := by decide
      omega
    have hslots :
        (if k.isWide then (old.slots.push k).push .unusable else old.slots.push k).toList =
          old.slots.toList ++ k.slots := by
      cases hw : k.isWide <;> simp [Constant.slots, hw]
    constructor
    · intro h
      cases h
      exact ⟨hroom, hindex, hslots⟩
    · rintro ⟨-, hi, hnew⟩
      obtain rfl := UInt16.toNat_inj.1 (hindex.trans hi.symm)
      obtain ⟨slots⟩ := new
      obtain rfl := Array.toList_inj.1 (hnew.trans hslots.symm)
      rfl

/-- A narrow constant that is pushed stands behind all others. -/
theorem push_eq_ok {k : Constant} (hw : k.isWide = false) {i : UInt16}
    (h : push k old = .ok i new) : i.toNat = old.size ∧ new.slots = old.slots.push k := by
  obtain ⟨-, hi, hslots⟩ := push_eq_ok_iff.1 h
  exact ⟨hi, Array.toList_inj.1 (by simp [hslots, Constant.slots, hw])⟩

/-- An added constant leaves no more slots than a pool can have. -/
theorem size_le_of_push {k : Constant} {i : UInt16} (h : push k old = .ok i new) :
    new.size ≤ limit := by
  obtain ⟨hroom, -, hslots⟩ := push_eq_ok_iff.1 h
  have hsize : new.size = old.size + k.width := by
    simp [ConstantPool.size, ← Array.length_toList, hslots]
  rwa [hsize]

/-- What cannot be added for want of room leaves the pool as it was. -/
theorem push_eq_error_iff {k : Constant} {e : Fault} :
    push k old = .error e new ↔ limit < old.size + k.width ∧ e = .poolFull ∧ new = old := by
  unfold push
  split
  · next hfull => simp [hfull, eq_comm]
  · next hroom => simp [hroom]

/-- A text is added if it is short enough and there is room for it. -/
theorem pushText_eq_ok_iff {s : String} {i : UInt16} :
    pushText s old = .ok i new ↔
      s.utf8ByteSize ≤ limit ∧ push (.utf8 (Utf8.encode s)) old = .ok i new := by
  unfold pushText
  split
  · next hlong =>
    constructor
    · intro h
      cases h
    · exact fun h => absurd h.1 (Nat.not_le.2 hlong)
  · next hshort => simp [Nat.not_lt.1 hshort]

/-- A text that is too long, or for which there is no room, leaves the pool as it was. -/
theorem pushText_eq_error_iff {s : String} {e : Fault} :
    pushText s old = .error e new ↔
      (limit < s.utf8ByteSize ∧ e = .textTooLong s.utf8ByteSize ∨
        s.utf8ByteSize ≤ limit ∧ limit ≤ old.size ∧ e = .poolFull) ∧ new = old := by
  unfold pushText
  split
  · next hlong =>
    constructor
    · intro h
      cases h
      exact ⟨.inl ⟨hlong, rfl⟩, rfl⟩
    · rintro ⟨⟨-, rfl⟩ | ⟨hshort, -⟩, rfl⟩
      · rfl
      · exact absurd hlong (Nat.not_lt.2 hshort)
  · next hshort =>
    have hshort := Nat.not_lt.1 hshort
    have hfull : limit < old.size + (Constant.utf8 (Utf8.encode s)).width ↔ limit ≤ old.size :=
      Nat.lt_succ_iff
    simp [push_eq_error_iff, hfull, hshort, Nat.not_lt.2 hshort, and_assoc]

/-! ## Replaced constants -/

/-- The new pool is the old one with shared constants appended and one slot replaced. -/
def Replaces (old new : ConstantPool) (i : Nat) (k : Constant) : Prop :=
  ∃ grown, old.Grows grown ∧ new.slots = grown.slots.setIfInBounds i k

variable {i j : Nat} {k k' : Constant}

theorem Replaces.size_le (h : Replaces old new i k) : old.size ≤ new.size := by
  obtain ⟨grown, hgrows, hslots⟩ := h
  simpa [ConstantPool.size, hslots] using hgrows.size_le

theorem Replaces.getElem?_self (h : Replaces old new i k) (hk : old.slots[i]? = some k') :
    new.slots[i]? = some k := by
  obtain ⟨grown, hgrows, hslots⟩ := h
  have hlt := (Array.getElem?_eq_some_iff.1 (hgrows.getElem? hk)).1
  rw [hslots, Array.getElem?_setIfInBounds_self_of_lt hlt]

theorem Replaces.getElem?_of_ne (h : Replaces old new i k) (hne : i ≠ j)
    (hk : old.slots[j]? = some k') : new.slots[j]? = some k' := by
  obtain ⟨grown, hgrows, hslots⟩ := h
  rw [hslots, Array.getElem?_setIfInBounds_ne hne, hgrows.getElem? hk]

/-- Replacing what is not shared keeps what is. -/
theorem Replaces.keeps (h : Replaces old new i k) (hk : old.slots[i]? = some k')
    (hshared : k'.isShared = false) : Keeps old new := by
  intro j s hs hj
  refine h.getElem?_of_ne ?_ hj
  rintro rfl
  simp_all

theorem Replaces.getElem?_or (h : Replaces old new i k) (hne : i ≠ j)
    (hk : new.slots[j]? = some k') : old.slots[j]? = some k' ∨ k'.isShared = true := by
  obtain ⟨grown, hgrows, hslots⟩ := h
  rw [hslots, Array.getElem?_setIfInBounds_ne hne] at hk
  exact hgrows.getElem?_or hk

/-! ## Indices -/

/-- Whether every slot has a 16-bit index, as in every pool that is read from bytes or made from the
empty one by adding and replacing constants. -/
def Addressable (pool : ConstantPool) : Prop :=
  pool.size ≤ 2 ^ 16

instance (pool : ConstantPool) : Decidable pool.Addressable :=
  inferInstanceAs (Decidable (_ ≤ _))

theorem addressable_empty : empty.Addressable := by
  simp [Addressable, empty, ConstantPool.size]

theorem addressable_of_push {k : Constant} {i : UInt16} (h : push k old = .ok i new) :
    new.Addressable :=
  Nat.le_trans (size_le_of_push h) (by decide)

theorem Addressable.set (h : old.Addressable) {i : UInt16} {k : Constant}
    (hset : old.set i k = .ok new) : new.Addressable := by
  obtain ⟨_, -, hset⟩ := except_bind_eq_ok_iff.1 hset
  cases hset
  simpa [Addressable, ConstantPool.size] using h

theorem Addressable.toNat_toUInt16 (h : pool.Addressable) {j : Nat} {k : Constant}
    (hk : pool.slots[j]? = some k) : j.toUInt16.toNat = j := by
  have hlt : j < pool.slots.size := (Array.getElem?_eq_some_iff.1 hk).1
  rw [Nat.toUInt16_eq, UInt16.toNat_ofNat']
  exact Nat.mod_eq_of_lt (Nat.lt_of_lt_of_le hlt h)

/-- In an addressable pool the index of each entry leads back to it. -/
theorem Addressable.getElem?_of_mem_entries (h : pool.Addressable) {i : UInt16} {k : Constant}
    (hk : (i, k) ∈ pool.entries) : pool.slots[i.toNat]? = some k := by
  obtain ⟨j, hj, -, rfl⟩ := mem_entries.1 hk
  rw [h.toNat_toUInt16 hj, hj]

/-- The entries of an addressable pool are those that can be read at their index. -/
theorem Addressable.mem_entries_iff_get (h : pool.Addressable) {i : UInt16} {k : Constant} :
    (i, k) ∈ pool.entries ↔ pool.get i = .ok k := by
  rw [get_eq_ok_iff]
  constructor
  · intro hk
    obtain ⟨-, -, husable, -⟩ := mem_entries.1 hk
    exact ⟨h.getElem?_of_mem_entries hk, husable⟩
  · rintro ⟨hk, husable⟩
    exact mem_entries.2 ⟨i.toNat, hk, husable, UInt16.ofNat_toNat⟩

/-- The entries of an addressable pool go up by their indices. -/
theorem Addressable.pairwise_lt_entries (h : pool.Addressable) :
    pool.entries.Pairwise fun p q => p.1 < q.1 := by
  have hlt : pool.slots.toList.zipIdx.Pairwise fun p q => p.2 < q.2 := by
    have := List.pairwise_lt_range' (s := 0) (n := pool.slots.toList.length)
    rwa [← List.zipIdx_map_snd, List.pairwise_map] at this
  refine List.pairwise_map.2 (List.Pairwise.imp_of_mem ?_ (hlt.filter _))
  rintro ⟨k, i⟩ ⟨k', j⟩ hi hj hij
  have hslot : pool.slots[i]? = some k := by
    simpa [List.mem_zipIdx_iff_getElem?] using (List.mem_filter.1 hi).1
  have hslot' : pool.slots[j]? = some k' := by
    simpa [List.mem_zipIdx_iff_getElem?] using (List.mem_filter.1 hj).1
  change i.toUInt16 < j.toUInt16
  rwa [UInt16.lt_iff_toNat_lt, h.toNat_toUInt16 hslot, h.toNat_toUInt16 hslot']

/-- The entries of an addressable pool have indices of their own. -/
theorem Addressable.pairwise_entries (h : pool.Addressable) :
    pool.entries.Pairwise fun p q => p.1 ≠ q.1 :=
  h.pairwise_lt_entries.imp UInt16.ne_of_lt

/-! ## Slot 0 -/

/-- Whether slot 0 holds nothing, as in every pool that is read from bytes or made from the empty
one by adding and replacing constants. -/
def Headed (pool : ConstantPool) : Prop :=
  pool.slots[0]? = some .unusable

instance (pool : ConstantPool) : Decidable pool.Headed :=
  inferInstanceAs (Decidable (_ = _))

theorem headed_empty : empty.Headed := rfl

theorem Headed.push (h : old.Headed) {i : UInt16} (hpush : push k old = .ok i new) :
    new.Headed := by
  obtain ⟨-, -, hslots⟩ := push_eq_ok_iff.1 hpush
  have hold : old.slots.toList[0]? = some .unusable := Array.getElem?_toList.trans h
  rw [Headed, ← Array.getElem?_toList, hslots, List.getElem?_append_left, hold]
  exact (List.getElem?_eq_some_iff.1 hold).1

theorem Headed.set (h : old.Headed) {i : UInt16} (hset : old.set i k = .ok new) :
    new.Headed := by
  obtain ⟨_, hget, hset⟩ := except_bind_eq_ok_iff.1 hset
  cases hset
  have hne : i.toNat ≠ 0 := by
    intro hzero
    obtain ⟨hold, husable⟩ := get_eq_ok_iff.1 hget
    rw [hzero, h] at hold
    exact husable (Option.some.inj hold).symm
  exact (Array.getElem?_setIfInBounds_ne hne).trans h

/-! ## Limits -/

/-- No more slots than can be counted, and no text of more bytes than can be counted. -/
structure WithinLimits (pool : ConstantPool) : Prop where
  size : pool.size ≤ limit
  texts : ∀ bytes, .utf8 bytes ∈ pool.slots → bytes.length ≤ limit

theorem WithinLimits.addressable (h : pool.WithinLimits) : pool.Addressable :=
  Nat.le_trans h.size (by decide)

theorem WithinLimits.push {i : UInt16} (h : old.WithinLimits)
    (hk : ∀ bytes, k = .utf8 bytes → bytes.length ≤ limit) (hpush : push k old = .ok i new) :
    new.WithinLimits := by
  refine ⟨size_le_of_push hpush, fun bytes hmem => ?_⟩
  obtain ⟨-, -, hslots⟩ := push_eq_ok_iff.1 hpush
  rw [← Array.mem_toList_iff, hslots, List.mem_append] at hmem
  rcases hmem with hmem | hmem
  · exact h.texts bytes (Array.mem_toList_iff.1 hmem)
  · exact hk bytes ((Constant.mem_slots hmem).resolve_right (by simp)).symm

theorem WithinLimits.setIfInBounds (h : pool.WithinLimits)
    (hk : ∀ bytes, k = .utf8 bytes → bytes.length ≤ limit) :
    WithinLimits ⟨pool.slots.setIfInBounds i k⟩ := by
  refine ⟨by simpa [ConstantPool.size] using h.size, fun bytes hmem => ?_⟩
  rcases Array.mem_or_eq_of_mem_setIfInBounds hmem with hmem | hmem
  · exact h.texts bytes hmem
  · exact hk bytes hmem.symm

end ConstantPool

end JarRefit.ClassFile
