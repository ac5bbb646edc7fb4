import JarRefit.Proofs.ClassFile.Growth

/-!
# The first slot of a constant

Where a search for a constant ends: at the first slot that holds it. Constants that are added later
do not change what is found, and neither does the replacement of other constants.
-/
namespace JarRefit.ClassFile.ConstantPool

variable {pool old new : ConstantPool} {k k' : Constant} {i : UInt16}

theorem findIndex?_beq (hk : k ≠ .unusable) :
    pool.findIndex? (· == k) = (pool.slots.toList.findIdx? (· == k)).map Nat.toUInt16 := by
  have hp : (fun c => c != .unusable && c == k) = (· == k) := by
    funext c
    by_cases h : c = k <;> simp [h, hk]
  rw [findIndex?, hp, ← List.findIdx?_toArray, Array.toArray_toList]

theorem findIndex?_beq_eq_none_iff (hk : k ≠ .unusable) :
    pool.findIndex? (· == k) = none ↔ k ∉ pool.slots := by
  rw [findIndex?_beq hk, Option.map_eq_none_iff, List.findIdx?_eq_none_iff]
  simp only [beq_eq_false_iff_ne, Array.mem_toList_iff]
  exact ⟨fun h hmem => h k hmem rfl, fun h c hc heq => h (heq ▸ hc)⟩

/-- What is found stands there. -/
theorem Addressable.getElem?_of_findIndex? (h : pool.Addressable) (hk : k ≠ .unusable)
    (hfound : pool.findIndex? (· == k) = some i) : pool.slots[i.toNat]? = some k := by
  rw [findIndex?_beq hk] at hfound
  obtain ⟨j, hj, rfl⟩ := Option.map_eq_some_iff.1 hfound
  obtain ⟨hlt, hkj, -⟩ := List.findIdx?_eq_some_iff_getElem.1 hj
  have hslot : pool.slots[j]? = some k := by
    rw [← Array.getElem?_toList, List.getElem?_eq_getElem hlt, eq_of_beq hkj]
  rw [h.toNat_toUInt16 hslot, hslot]

/-- What is found in a pool is found there as long as slots are only added behind it. -/
theorem findIndex?_of_isPrefix (hslots : old.slots.toList <+: new.slots.toList)
    (hk : k ≠ .unusable) (hfound : old.findIndex? (· == k) = some i) :
    new.findIndex? (· == k) = some i := by
  obtain ⟨added, hslots⟩ := hslots
  rw [findIndex?_beq hk] at hfound ⊢
  obtain ⟨j, hj, rfl⟩ := Option.map_eq_some_iff.1 hfound
  rw [← hslots, List.findIdx?_append, hj]
  rfl

/-- An added constant is found in its slot, unless an earlier one holds the same. -/
theorem findIndex?_push (hw : k.isWide = false) (hpush : push k old = .ok i new)
    (hk' : k' ≠ .unusable) :
    new.findIndex? (· == k') =
      (old.findIndex? (· == k')).or (if k = k' then some i else none) := by
  obtain ⟨hi, hslots⟩ := push_eq_ok hw hpush
  obtain rfl : old.size.toUInt16 = i := by
    rw [← hi]
    exact UInt16.ofNat_toNat
  rw [findIndex?_beq hk', findIndex?_beq hk', hslots, Array.toList_push, List.findIdx?_append]
  cases old.slots.toList.findIdx? (· == k') with
  | some j => rfl
  | none =>
    by_cases h : k = k'
    · simp [h, ConstantPool.size]
    · simp [h]

/-- Replacing a constant does not change where a third one is found. -/
theorem findIndex?_setIfInBounds {j : Nat} {found : Constant} (hfound : found ≠ .unusable)
    (hold : pool.slots[j]? = some k) (hk : k ≠ found) (hk' : k' ≠ found) :
    findIndex? ⟨pool.slots.setIfInBounds j k'⟩ (· == found) = pool.findIndex? (· == found) := by
  have hmap (slots : List Constant) :
      slots.findIdx? (· == found) = (slots.map (· == found)).findIdx? id := by
    rw [List.findIdx?_map]
    rfl
  have hsame : (pool.slots.toList.map (· == found)).set j (k' == found) =
      pool.slots.toList.map (· == found) := by
    rw [← Array.getElem?_toList] at hold
    obtain ⟨hlt, rfl⟩ := List.getElem?_eq_some_iff.1 hold
    rw [beq_false_of_ne hk', ← beq_false_of_ne hk, ← List.map_set, List.set_getElem_self]
  rw [findIndex?_beq hfound, findIndex?_beq hfound, hmap, hmap, Array.toList_setIfInBounds,
    List.map_set, hsame]

/-- The first entry that holds a constant names the slot where the constant is found. -/
theorem findSome?_entries (hk : k ≠ .unusable) :
    pool.entries.findSome? (fun e => if e.2 = k then some e.1 else none) =
      pool.findIndex? (· == k) := by
  rw [findIndex?_beq hk, List.findIdx?_eq_findSome?_zipIdx, entries]
  simp only [← List.head?_filterMap, List.filterMap_map, List.filterMap_filter, ← List.head?_map,
    List.map_filterMap]
  congr 2
  funext p
  obtain ⟨c, j⟩ := p
  by_cases h : c = k <;> simp [h, hk]

end JarRefit.ClassFile.ConstantPool
