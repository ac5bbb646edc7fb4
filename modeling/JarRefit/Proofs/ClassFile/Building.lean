import JarRefit.Proofs.ClassFile.Growth
import JarRefit.Proofs.ClassFile.RoundTrip

/-!
# Pools that are built

A pool that is empty or read from bytes, and to which constants are added one after another, keeps
its layout, whether or not there is room for all of them. Its entries are the slots that can be
read, in their order, and a constant is added just as long as there is room for the slots it takes.

## Main definitions

* `ConstantPool.Filled`: the pools that come about by adding any constants.
* `ConstantPool.Built`: those for which no unusable slot was added on its own, so that they keep
  their layout.
* `ConstantPool.LaidOut`: the layout of a pool, and how it shows when constants are read and added.
-/
namespace JarRefit.ClassFile

/-! ## The slots of one constant -/

namespace Constant

theorem head?_slots (k : Constant) : k.slots.head? = some k := by
  cases hw : k.isWide <;> simp [slots, hw]

theorem slots_ne_nil (k : Constant) : k.slots ≠ [] := by
  cases hw : k.isWide <;> simp [slots, hw]

theorem isChain_slots (k : Constant) : k.slots.IsChain Follows := by
  cases hw : k.isWide <;> simp [slots, hw, Follows]

/-- Behind a wide constant stands its second slot. -/
theorem isWide_of_mem_getLast?_slots {k last : Constant} (h : last ∈ k.slots.getLast?) :
    last.isWide = false := by
  cases hw : k.isWide with
  | true =>
    obtain rfl : .unusable = last := by simpa [slots, hw] using h
    rfl
  | false =>
    obtain rfl : k = last := by simpa [slots, hw] using h
    exact hw

end Constant

namespace ConstantPool

variable {pool old new : ConstantPool} {k : Constant} {i : UInt16}

/-! ## Adding a constant -/

theorem wellLaid_empty : empty.WellLaid := by
  constructor <;> simp [empty]

/-- An added constant stands behind a slot that asks for no unusable one, and brings its own. -/
theorem WellLaid.push (h : old.WellLaid) (hk : k ≠ .unusable)
    (hpush : ConstantPool.push k old = .ok i new) : new.WellLaid := by
  obtain ⟨-, -, hslots⟩ := push_eq_ok_iff.1 hpush
  refine ⟨by simp [hslots, h.head], ?_, ?_⟩
  · rw [hslots, List.isChain_append]
    refine ⟨h.neighbours, k.isChain_slots, fun before hbefore after hafter => ?_⟩
    obtain rfl : k = after := by simpa [k.head?_slots] using hafter
    simp [Follows, hk, h.last before hbefore]
  · intro last hlast
    rw [hslots, List.getLast?_append_of_ne_nil _ k.slots_ne_nil] at hlast
    exact Constant.isWide_of_mem_getLast?_slots hlast

/-! ## Adding, and trying to add -/

theorem stateAfter_push (k : Constant) (pool : ConstantPool) :
    stateAfter (push k) pool = pool ∨ ∃ i, push k pool = .ok i (stateAfter (push k) pool) := by
  cases h : push k pool with
  | ok i new => exact .inr ⟨i, by rw [stateAfter_of_ok h]⟩
  | error e new => exact .inl (by rw [stateAfter_of_error h, (push_eq_error_iff.1 h).2.2])

/-- A text is found in the pool, or added. -/
theorem internText_eq (s : String) (pool : ConstantPool) :
    internText s pool =
      match pool.findText? s with
      | some i => .ok i pool
      | none => pushText s pool := by
  rw [internText, estate_bind_of_ok (estate_get_eq pool)]
  cases pool.findText? s <;> rfl

/-- Interning a text leaves the pool, or what adding the text leaves. -/
theorem stateAfter_internText (s : String) (pool : ConstantPool) :
    stateAfter (internText s) pool = pool ∨
      stateAfter (internText s) pool = stateAfter (push (.utf8 (Utf8.encode s))) pool := by
  unfold stateAfter
  rw [internText_eq]
  cases pool.findText? s with
  | some i => exact .inl rfl
  | none =>
    by_cases hlong : s.utf8ByteSize > limit
    · left
      simp only [pushText, if_pos hlong]
      rfl
    · right
      simp only [pushText, if_neg hlong]

/-- Interning a class leaves what interning its name leaves, or what adding a class to that
leaves. -/
theorem stateAfter_internClass (name : String) (pool : ConstantPool) :
    stateAfter (internClass name) pool = stateAfter (internText name) pool ∨
      ∃ n, stateAfter (internClass name) pool =
        stateAfter (push (.classRef n)) (stateAfter (internText name) pool) := by
  rcases stateAfter_bind_cases (internText name) _ pool with h | ⟨n, -, h⟩
  · exact .inl h
  · rw [internClass, h]
    generalize stateAfter (internText name) pool = named
    unfold stateAfter
    rw [estate_bind_of_ok (estate_get_eq named)]
    cases named.findIndex? (· == .classRef n) with
    | some i => exact .inl rfl
    | none => exact .inr ⟨n, rfl⟩

/-- What holds of a pool, and of the pool that adding a constant gives, holds whether or not there is
room for the constant. -/
theorem stateAfter_push_keeps {P : ConstantPool → Prop} (h : P pool)
    (hpush : ∀ i new, push k pool = .ok i new → P new) : P (stateAfter (push k) pool) := by
  rcases stateAfter_push k pool with hsame | ⟨i, hi⟩
  · rwa [hsame]
  · exact hpush i _ hi

/-- The pools that are made from the empty one, or from one that is read, by adding constants, of
which each can fail. An unusable slot can be added like any other constant. -/
inductive Filled : ConstantPool → Prop where
  | empty : Filled .empty
  | decoded {input rest : List UInt8} {pool : ConstantPool}
      (h : decode input = .ok (pool, rest)) : Filled pool
  | push {pool : ConstantPool} (h : Filled pool) (k : Constant) :
      Filled (stateAfter (push k) pool)

namespace Filled

theorem pushAll (h : pool.Filled) (ks : List Constant) :
    (stateAfterAll ConstantPool.push pool ks).Filled :=
  stateAfterAll_keeps (fun k _ _ hpool => hpool.push k) h

/-- Interning a text adds at most one constant. -/
theorem internText (h : pool.Filled) (s : String) :
    (stateAfter (ConstantPool.internText s) pool).Filled := by
  rcases stateAfter_internText s pool with hsame | hsame <;> rw [hsame]
  · exact h
  · exact h.push _

theorem internClass (h : pool.Filled) (name : String) :
    (stateAfter (ConstantPool.internClass name) pool).Filled := by
  rcases stateAfter_internClass name pool with hsame | ⟨n, hsame⟩ <;> rw [hsame]
  · exact h.internText name
  · exact (h.internText name).push _

/-- What holds of the empty pool and of those that are read, and stays when any constant is added,
holds of all pools that are filled. -/
theorem invariant {P : ConstantPool → Prop} (hempty : P .empty)
    (hread : ∀ pool count, pool.ReadFrom count → P pool)
    (hpush : ∀ k i old new, P old → ConstantPool.push k old = .ok i new → P new)
    (h : pool.Filled) : P pool := by
  induction h with
  | empty => exact hempty
  | decoded h =>
    obtain ⟨count, hcount, -⟩ := decodePool_eq_ok_iff.1 h
    exact hread _ count hcount
  | push _ k ih => exact stateAfter_push_keeps ih fun i new => hpush k i _ new ih

theorem addressable (h : pool.Filled) : pool.Addressable :=
  h.invariant addressable_empty (fun _ _ hread => hread.addressable) fun _ _ _ _ _ hpush =>
    addressable_of_push hpush

theorem headed (h : pool.Filled) : pool.Headed :=
  h.invariant headed_empty (fun _ _ hread => hread.headed) fun _ _ _ _ hold hpush =>
    hold.push hpush

end Filled

/-- The pools that are made from the empty one, or from one that is read, by adding constants and
interning texts and classes, of which each can fail. -/
inductive Built : ConstantPool → Prop where
  | empty : Built .empty
  | decoded {input rest : List UInt8} {pool : ConstantPool}
      (h : decode input = .ok (pool, rest)) : Built pool
  | push {pool : ConstantPool} (h : Built pool) {k : Constant} (hk : k ≠ .unusable) :
      Built (stateAfter (push k) pool)
  | internText {pool : ConstantPool} (h : Built pool) (s : String) :
      Built (stateAfter (internText s) pool)
  | internClass {pool : ConstantPool} (h : Built pool) (name : String) :
      Built (stateAfter (internClass name) pool)

/-- What holds of the empty pool and of those that are read, and stays when a constant is added,
holds of all pools that are built. -/
theorem Built.invariant {P : ConstantPool → Prop} (hempty : P .empty)
    (hread : ∀ pool count, pool.ReadFrom count → P pool)
    (hpush : ∀ k i old new, k ≠ .unusable → P old → ConstantPool.push k old = .ok i new → P new)
    (h : pool.Built) : P pool := by
  have hadd (k : Constant) (hk : k ≠ .unusable) (pool : ConstantPool) (hpool : P pool) :
      P (stateAfter (ConstantPool.push k) pool) :=
    stateAfter_push_keeps hpool fun i new => hpush k i pool new hk hpool
  have hintern (s : String) (pool : ConstantPool) (hpool : P pool) :
      P (stateAfter (ConstantPool.internText s) pool) := by
    rcases stateAfter_internText s pool with hsame | hsame
    · rwa [hsame]
    · rw [hsame]
      exact hadd _ (by simp) pool hpool
  induction h with
  | empty => exact hempty
  | decoded h =>
    obtain ⟨count, hcount, -⟩ := decodePool_eq_ok_iff.1 h
    exact hread _ count hcount
  | push h hk ih => exact hadd _ hk _ ih
  | internText h s ih => exact hintern s _ ih
  | internClass h name ih =>
    rcases stateAfter_internClass name _ with hsame | ⟨n, hsame⟩
    · rw [hsame]
      exact hintern name _ ih
    · rw [hsame]
      exact hadd _ (by simp) _ (hintern name _ ih)

theorem Built.filled (h : pool.Built) : pool.Filled := by
  induction h with
  | empty => exact .empty
  | decoded h => exact .decoded h
  | push _ _ ih => exact ih.push _
  | internText _ s ih => exact ih.internText s
  | internClass _ name ih => exact ih.internClass name

theorem Built.wellLaid (h : pool.Built) : pool.WellLaid :=
  h.invariant wellLaid_empty (fun _ _ hread => hread.wellLaid) fun _ _ _ _ hk hold hpush =>
    hold.push hk hpush

theorem Built.addressable (h : pool.Built) : pool.Addressable :=
  h.filled.addressable

/-- The pool of a class file that is read is built. -/
theorem built_of_decode {bytes : List UInt8} {c : ClassFile} (h : ClassFile.decode bytes = .ok c) :
    c.pool.Built := by
  obtain ⟨count, hcount, -⟩ := ClassFile.decode_eq_ok_iff.1 h
  exact @Built.decoded _ [] _ (decodePool_eq_ok_iff.2 ⟨count, hcount, rfl⟩)

/-! ## Layout -/

/-- How a pool is laid out. Unusable are slot 0 and the slots behind wide constants, each of which
has one. Its entries are the constants that can be read, each of them once and in their order. A
constant is added at the end, up to 65535 slots; one without room is refused, and then nothing
changes. -/
structure LaidOut (pool : ConstantPool) : Prop where
  wellLaid : pool.WellLaid
  ascending : (pool.entries.map Prod.fst).Pairwise (· < ·)
  mem_entries_iff : ∀ i k, (i, k) ∈ pool.entries ↔ pool.get i = .ok k
  added : ∀ k i new, push k pool = .ok i new → i.toNat = pool.size ∧ new.size ≤ 65535
  refused : ∀ k e new, push k pool = .error e new ↔
    65535 < pool.size + k.width ∧ e = .poolFull ∧ new = pool

/-- Every pool that is built is laid out so. -/
theorem laidOut_of_built (h : pool.Built) : pool.LaidOut where
  wellLaid := h.wellLaid
  ascending := List.pairwise_map.2 h.addressable.pairwise_lt_entries
  mem_entries_iff _ _ := h.addressable.mem_entries_iff_get
  added _ _ _ hpush := ⟨(push_eq_ok_iff.1 hpush).2.1, size_le_of_push hpush⟩
  refused _ _ _ := push_eq_error_iff

/-- The pool of a class file whose last constant was a long, with a class and a double added. -/
def interned : ConstantPool :=
  ⟨#[.unusable, .long 42, .unusable, .utf8 [97], .classRef 3, .double 7, .unusable]⟩

theorem laidOut_interned : interned.Built ∧ interned.LaidOut := by
  have hread : lastWide.pool.Built :=
    built_of_decode (rfl : ClassFile.decode (encodeAnnouncing 2 lastWide) = .ok lastWide)
  have hadded : stateAfter (push (.double 7)) (stateAfter (internClass "a") lastWide.pool) =
      interned := by decide +kernel
  have hbuilt : interned.Built := hadded ▸ (hread.internClass "a").push (by simp)
  exact ⟨hbuilt, laidOut_of_built hbuilt⟩

end ConstantPool

end JarRefit.ClassFile
