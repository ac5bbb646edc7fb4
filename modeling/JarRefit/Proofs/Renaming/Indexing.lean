import JarRefit.Proofs.ClassFile.Requests
import JarRefit.Proofs.Renaming.Interning
import JarRefit.Proofs.Tables

/-!
# Indexes that agree with their pool

The indexes of an interner are made once from a pool, which can hold the same constant several
times, and are kept up while constants are added and replaced. They always answer what a search of
the pool finds, so that an interner gives the slots, the faults and the pool that the search gives.

## Main definitions

* `Interner.known`: what the indexes answer for a constant.
* `Interner.Indexed`: the indexes answer what a search of the pool finds.
* `Interner.Adds`: a constant is added that the pool does not hold.
* `Interner.slotOf`: the slot that is known for a constant, or a new one, which is entered.
* `Interner.Pushes`: work on a pool that pushes a constant or does nothing.
* `Interner.onlyPool`: what work gives, with the pool that it leaves.
-/
namespace JarRefit

open ClassFile

namespace ClassFile.Constant

variable {k : Constant}

theorem ne_unusable_of_isShared (h : k.isShared = true) : k ≠ .unusable := by
  rintro rfl
  cases h

theorem isWide_of_isShared (h : k.isShared = true) : k.isWide = false := by
  cases k with
  | utf8 | nameAndType => rfl
  | _ => cases h

end ClassFile.Constant

namespace Renaming.Interner

variable {interner interner' : Interner} {pool : ConstantPool} {k k' : Constant} {s : String}

/-! ## Indexes made from a pool -/

/-- The slot that the indexes give for a constant. -/
def known (interner : Interner) : Constant → Option UInt16
  | .utf8 bytes => interner.texts[bytes]?
  | .nameAndType name descriptor => interner.pairs[(name, descriptor)]?
  | _ => none

/-- For each shared constant the indexes give the first slot that holds it, if there is one. -/
structure Indexed (interner : Interner) : Prop where
  addressable : interner.pool.Addressable
  known_eq : ∀ k, k.isShared = true → interner.known k = interner.pool.findIndex? (· == k)

/-- An entry is noted unless its constant is known already. -/
theorem known_note (hk : k.isShared = true) (interner : Interner) (entry : UInt16 × Constant) :
    (interner.note entry).known k =
      (interner.known k).or (if entry.2 = k then some entry.1 else none) := by
  obtain ⟨i, c⟩ := entry
  cases k with
  | utf8 =>
    cases c with
    | utf8 =>
      simp only [note, known, Std.HashMap.getElem?_insertIfNew]
      grind
    | _ => simp [note, known]
  | nameAndType =>
    cases c with
    | nameAndType =>
      simp only [note, known, Std.HashMap.getElem?_insertIfNew]
      grind
    | _ => simp [note, known]
  | _ => cases hk

theorem indexed_ofPool (h : pool.Addressable) : (ofPool pool).Indexed := by
  have hpool := (sound_ofPool h).2
  refine ⟨by rwa [hpool], fun k hk => ?_⟩
  have hempty : (⟨pool, ∅, ∅⟩ : Interner).known k = none := by
    cases k <;> simp [known]
  have hnoted := foldl_eq_or (fun noted : Interner => noted.known k) (known_note hk)
    ⟨pool, ∅, ∅⟩ pool.entries
  rw [hempty, Option.none_or, ConstantPool.findSome?_entries (k.ne_unusable_of_isShared hk)]
    at hnoted
  rw [hpool, ofPool, hnoted]

theorem Indexed.sound (h : interner.Indexed) : interner.Sound where
  texts bytes i hi := h.addressable.getElem?_of_findIndex? (by simp)
    ((h.known_eq (.utf8 bytes) rfl).symm.trans hi)
  pairs name descriptor i hi := h.addressable.getElem?_of_findIndex? (by simp)
    ((h.known_eq (.nameAndType name descriptor) rfl).symm.trans hi)

/-! ## Adding a constant -/

/-- The constant, which the pool does not hold, is added behind it and put into the indexes. -/
structure Adds (k : Constant) (interner interner' : Interner) : Prop where
  shared : k.isShared = true
  absent : k ∉ interner.pool.slots
  added : ∃ i, ConstantPool.push k interner.pool = .ok i interner'.pool ∧
    ∀ k', interner'.known k' = if k' = k then some i else interner.known k'

theorem Indexed.adds (h : interner.Indexed) (hadds : Adds k interner interner') :
    interner'.Indexed := by
  obtain ⟨i, hpush, hknown⟩ := hadds.added
  refine ⟨ConstantPool.addressable_of_push hpush, fun k' hk' => ?_⟩
  have hwide := k.isWide_of_isShared hadds.shared
  rw [hknown, ConstantPool.findIndex?_push hwide hpush (k'.ne_unusable_of_isShared hk')]
  split
  · next heq =>
    subst heq
    have hnone := (ConstantPool.findIndex?_beq_eq_none_iff (k'.ne_unusable_of_isShared hk')).2
      hadds.absent
    rw [hnone, if_pos rfl]
    rfl
  · next hne => rw [if_neg (Ne.symm hne), Option.or_none, h.known_eq k' hk']

/-- A constant that is not known is not there. -/
theorem Indexed.notMem_of_known (h : interner.Indexed) (hk : k.isShared = true)
    (hnone : interner.known k = none) : k ∉ interner.pool.slots := by
  rw [h.known_eq k hk] at hnone
  exact (ConstantPool.findIndex?_beq_eq_none_iff (k.ne_unusable_of_isShared hk)).1 hnone

/-! ## Requests -/

/-- Puts a shared constant into its index. -/
def enter (k : Constant) (i : UInt16) (interner : Interner) : Interner :=
  match k with
  | .utf8 bytes => { interner with texts := interner.texts.insert bytes i }
  | .nameAndType name descriptor =>
    { interner with pairs := interner.pairs.insert (name, descriptor) i }
  | _ => interner

theorem pool_enter (k : Constant) (i : UInt16) (interner : Interner) :
    (interner.enter k i).pool = interner.pool := by
  cases k <;> rfl

theorem known_enter (hk : k.isShared = true) (i : UInt16) (interner : Interner) (k' : Constant) :
    (interner.enter k i).known k' = if k' = k then some i else interner.known k' := by
  cases k with
  | utf8 =>
    cases k' with
    | utf8 =>
      simp only [enter, known, Std.HashMap.getElem?_insert]
      grind
    | _ => simp [enter, known]
  | nameAndType =>
    cases k' with
    | nameAndType =>
      simp only [enter, known, Std.HashMap.getElem?_insert]
      grind
    | _ => simp [enter, known]
  | _ => cases hk

/-- The slot that the indexes know for a constant; if they know none, the constant is added and its
slot put into its index. -/
def slotOf (k : Constant) (add : PoolM UInt16) : InternerM UInt16 := do
  match (← EStateM.get).known k with
  | some index => return index
  | none =>
    let index ← onPool add
    modify (enter k index)
    return index

theorem text_eq (s : String) :
    text s = slotOf (.utf8 (Utf8.encode s)) (ConstantPool.pushText s) := rfl

theorem nameAndType_eq (name descriptor : String) :
    nameAndType name descriptor = (do
      let n ← text name
      let d ← text descriptor
      slotOf (.nameAndType n d) (ConstantPool.push (.nameAndType n d))) := rfl

variable {add : PoolM UInt16}

theorem slotOf_eq (k : Constant) (add : PoolM UInt16) (interner : Interner) :
    slotOf k add interner =
      match interner.known k with
      | some i => .ok i interner
      | none =>
        match add interner.pool with
        | .ok i pool => .ok i (enter k i { interner with pool })
        | .error e pool => .error e { interner with pool } := by
  rw [slotOf, estate_bind_of_ok (estate_get_eq interner)]
  cases interner.known k with
  | some i => rfl
  | none =>
    cases hadd : add interner.pool with
    | ok i pool =>
      simp only [bind, EStateM.bind, onPool, hadd, estate_modify_eq]
      rfl
    | error e pool => simp only [bind, EStateM.bind, onPool, hadd]

/-- Work on a pool that pushes a constant, or fails and leaves the pool as it is. -/
def Pushes (add : PoolM UInt16) (k : Constant) : Prop :=
  ∀ pool, (∃ i new, add pool = .ok i new ∧ ConstantPool.push k pool = .ok i new) ∨
    ∃ e, add pool = .error e pool

theorem pushes_push (k : Constant) : Pushes (ConstantPool.push k) k := by
  intro pool
  cases hpush : ConstantPool.push k pool with
  | ok i new => exact .inl ⟨i, new, rfl, rfl⟩
  | error e new =>
    obtain ⟨-, -, rfl⟩ := ConstantPool.push_eq_error_iff.1 hpush
    exact .inr ⟨e, rfl⟩

theorem pushes_pushText (s : String) :
    Pushes (ConstantPool.pushText s) (.utf8 (Utf8.encode s)) := by
  intro pool
  cases hpush : ConstantPool.pushText s pool with
  | ok i new => exact .inl ⟨i, new, rfl, (ConstantPool.pushText_eq_ok_iff.1 hpush).2⟩
  | error e new =>
    obtain ⟨-, rfl⟩ := ConstantPool.pushText_eq_error_iff.1 hpush
    exact .inr ⟨e, rfl⟩

/-- A request for a constant leaves the interner as it is, or adds the constant. -/
theorem Indexed.stateAfter_slotOf (h : interner.Indexed) (hk : k.isShared = true)
    (hadd : Pushes add k) :
    stateAfter (slotOf k add) interner = interner ∨
      Adds k interner (stateAfter (slotOf k add) interner) := by
  rw [stateAfter, slotOf_eq]
  cases hknown : interner.known k with
  | some i => exact .inl rfl
  | none =>
    obtain ⟨i, new, hnew, hpush⟩ | ⟨e, he⟩ := hadd interner.pool
    · rw [hnew]
      exact .inr ⟨hk, h.notMem_of_known hk hknown, i, by rwa [pool_enter],
        fun k' => known_enter hk i { interner with pool := new } k'⟩
    · rw [he]
      exact .inl rfl

section Keeps

variable {P : Interner → Prop} (hindexed : ∀ interner, P interner → interner.Indexed)
  (hadds : ∀ k interner interner', P interner → Adds k interner interner' → P interner')
include hindexed hadds

/-- What stays when a constant is added that was not there stays through a request. -/
theorem keeps_slotOf (h : P interner) (hk : k.isShared = true) (hadd : Pushes add k) :
    P (stateAfter (slotOf k add) interner) := by
  rcases (hindexed _ h).stateAfter_slotOf hk hadd with hsame | hadded
  · rwa [hsame]
  · exact hadds _ _ _ h hadded

theorem keeps_text (h : P interner) (s : String) : P (stateAfter (text s) interner) :=
  keeps_slotOf hindexed hadds h rfl (pushes_pushText s)

theorem keeps_nameAndType (h : P interner) (name descriptor : String) :
    P (stateAfter (nameAndType name descriptor) interner) := by
  have hname := keeps_text hindexed hadds h name
  have hdescriptor := keeps_text hindexed hadds hname descriptor
  rw [nameAndType_eq]
  rcases stateAfter_bind_cases (text name) _ interner with hsame | ⟨n, -, hsame⟩ <;> rw [hsame]
  · exact hname
  rcases stateAfter_bind_cases (text descriptor) _ _ with hsame | ⟨d, -, hsame⟩ <;> rw [hsame]
  · exact hdescriptor
  exact keeps_slotOf hindexed hadds hdescriptor rfl (pushes_push _)

end Keeps

/-- What work gives, with the pool that it leaves. -/
def onlyPool {α : Type} (work : InternerM α) (interner : Interner) :
    EStateM.Result Fault ConstantPool α :=
  match work interner with
  | .ok a interner' => .ok a interner'.pool
  | .error e interner' => .error e interner'.pool

/-- A request for a text is answered as a search of the pool answers it, and leaves the same
pool. -/
theorem Indexed.onlyPool_text (h : interner.Indexed) (s : String) :
    onlyPool (text s) interner = ConstantPool.internText s interner.pool := by
  have hfound : interner.known (.utf8 (Utf8.encode s)) = interner.pool.findText? s :=
    h.known_eq _ rfl
  rw [onlyPool, text_eq, slotOf_eq, ConstantPool.internText_eq, hfound]
  cases interner.pool.findText? s with
  | some i => rfl
  | none => cases ConstantPool.pushText s interner.pool <;> rfl

/-! ### Faults -/

/-- A request for a constant fails only where adding it does. -/
theorem slotOf_eq_error {e : Fault} (h : slotOf k add interner = .error e interner') :
    add interner.pool = .error e interner'.pool := by
  rw [slotOf_eq] at h
  cases hknown : interner.known k with
  | some i => simp [hknown] at h
  | none =>
    cases hadd : add interner.pool with
    | ok i pool => simp [hknown, hadd] at h
    | error e' pool =>
      simp only [hknown, hadd, EStateM.Result.error.injEq] at h
      obtain ⟨rfl, rfl⟩ := h
      rfl

/-- A request for a name-and-type fails only for want of room. -/
theorem wantsRoom_of_nameAndType {e : Fault} {name descriptor : String}
    (h : nameAndType name descriptor interner = .error e interner') :
    interner'.pool.WantsRoom [name, descriptor] e := by
  have htext {s a b} (hs : s ∈ [name, descriptor]) (h : text s a = .error e b) :
      b.pool.WantsRoom [name, descriptor] e := by
    rw [text_eq] at h
    exact ConstantPool.wantsRoom_of_pushText hs (slotOf_eq_error h)
  rw [nameAndType_eq] at h
  rcases estate_bind_eq_error_iff.1 h with h | ⟨n, named, -, h⟩
  · exact htext (by simp) h
  rcases estate_bind_eq_error_iff.1 h with h | ⟨d, described, -, h⟩
  · exact htext (by simp) h
  exact ConstantPool.wantsRoom_of_push rfl (slotOf_eq_error h)

/-! ## Replacing a constant -/

theorem update_eq_error {i : UInt16} {f : Constant → Option Constant} {e : Fault}
    (h : update i f interner = .error e interner') : interner' = interner := by
  unfold update onPool at h
  cases hget : interner.pool.get i with
  | error =>
    simp only [hget] at h
    cases h
    rfl
  | ok old =>
    cases hf : f old with
    | none =>
      simp only [hget, hf] at h
      cases h
      rfl
    | some new => simp [hget, hf, ConstantPool.set, bind, Except.bind, pure, Except.pure] at h

/-- Replacing a constant that is not shared by another such leaves the indexes right. -/
theorem Indexed.setIfInBounds (h : interner.Indexed) {j : Nat}
    (hold : interner.pool.slots[j]? = some k) (hk : k.isShared = false)
    (hk' : k'.isShared = false) :
    Indexed { interner with pool := ⟨interner.pool.slots.setIfInBounds j k'⟩ } where
  addressable := by simpa [ConstantPool.Addressable, ConstantPool.size] using h.addressable
  known_eq found hfound := by
    have hne {other : Constant} (hother : other.isShared = false) : other ≠ found := by
      rintro rfl
      rw [hfound] at hother
      cases hother
    rw [ConstantPool.findIndex?_setIfInBounds (found.ne_unusable_of_isShared hfound) hold (hne hk)
      (hne hk'), ← h.known_eq found hfound]
    cases found <;> rfl

end Renaming.Interner

end JarRefit
