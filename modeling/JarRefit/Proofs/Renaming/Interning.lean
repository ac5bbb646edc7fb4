import JarRefit.Proofs.ClassFile.Growth
import JarRefit.Renaming.Interner

/-!
# Interning

The indexes of an interner never point to a slot that holds something else. Interning only appends
shared constants, and gives a slot that resolves to what was asked for.

## Main definitions

* `Interner.Sound`: each entry of the indexes names a slot that holds its key.
-/
namespace JarRefit

theorem Utf8.encode_ne {s t : String} (h : s ≠ t) : encode s ≠ encode t :=
  fun he => h (encode_injective he)

namespace Renaming

open ClassFile

namespace Interner

variable {interner interner' : Interner} {pool : ConstantPool}

/-- Each entry of the indexes names a slot that holds its key. -/
structure Sound (interner : Interner) : Prop where
  texts : ∀ (bytes : List UInt8) (i : UInt16), interner.texts[bytes]? = some i →
    interner.pool.slots[i.toNat]? = some (Constant.utf8 bytes)
  pairs : ∀ name descriptor i : UInt16, interner.pairs[(name, descriptor)]? = some i →
    interner.pool.slots[i.toNat]? = some (Constant.nameAndType name descriptor)

theorem note_pool (interner : Interner) (entry : UInt16 × Constant) :
    (interner.note entry).pool = interner.pool := by
  unfold note
  split <;> rfl

theorem Sound.note (h : interner.Sound) {i : UInt16} {k : Constant}
    (hk : interner.pool.slots[i.toNat]? = some k) : (interner.note (i, k)).Sound := by
  cases k with
  | utf8 bytes =>
    refine ⟨fun other j hj => ?_, h.pairs⟩
    simp only [Interner.note, Std.HashMap.getElem?_insertIfNew] at hj ⊢
    split at hj
    · simp_all
    · exact h.texts other j hj
  | nameAndType name descriptor =>
    refine ⟨h.texts, fun n d j hj => ?_⟩
    simp only [Interner.note, Std.HashMap.getElem?_insertIfNew] at hj ⊢
    split at hj
    · simp_all
    · exact h.pairs n d j hj
  | _ => exact h

theorem sound_foldl_note (entries : List (UInt16 × Constant)) (h : interner.Sound)
    (hslots : ∀ p ∈ entries, interner.pool.slots[p.1.toNat]? = some p.2) :
    (entries.foldl note interner).Sound ∧ (entries.foldl note interner).pool = interner.pool := by
  induction entries generalizing interner with
  | nil => exact ⟨h, rfl⟩
  | cons p entries ih =>
    have hnote := h.note (hslots p (by simp))
    obtain ⟨hsound, hpool⟩ := ih hnote fun q hq => by
      rw [note_pool]
      exact hslots q (by simp [hq])
    exact ⟨hsound, hpool.trans (note_pool interner p)⟩

theorem sound_ofPool (hpool : pool.Addressable) : (ofPool pool).Sound ∧ (ofPool pool).pool = pool :=
  sound_foldl_note pool.entries ⟨by simp, by simp⟩ fun _ hp => hpool.getElem?_of_mem_entries hp

/-! ## Interning -/

/-- A pushed text stands in the slot that is given for it. -/
theorem pushText_eq_ok {s : String} {i : UInt16} {old new : ConstantPool}
    (h : ConstantPool.pushText s old = .ok i new) :
    i.toNat = old.size ∧ new.slots = old.slots.push (.utf8 (Utf8.encode s)) :=
  ConstantPool.push_eq_ok rfl (ConstantPool.pushText_eq_ok_iff.1 h).2

theorem onPool_eq_ok_iff {α : Type} {work : PoolM α} {a : α} :
    onPool work interner = .ok a interner' ↔
      ∃ pool, work interner.pool = .ok a pool ∧ interner' = { interner with pool } := by
  unfold onPool
  cases h : work interner.pool <;> grind

/-- The indexes stay sound as long as no shared constant goes away. -/
theorem Sound.keeps (h : interner.Sound) (hpool : interner.pool.Keeps pool) :
    Sound { interner with pool } where
  texts bytes i hi := hpool _ _ rfl (h.texts bytes i hi)
  pairs n d i hi := hpool _ _ rfl (h.pairs n d i hi)

theorem Sound.insert_text (h : interner.Sound) {bytes : List UInt8} {i : UInt16}
    (hi : interner.pool.slots[i.toNat]? = some (.utf8 bytes)) :
    Sound { interner with texts := interner.texts.insert bytes i } := by
  refine ⟨fun other j hj => ?_, h.pairs⟩
  simp only [Std.HashMap.getElem?_insert] at hj
  split at hj
  · simp_all
  · exact h.texts other j hj

theorem Sound.insert_pair (h : interner.Sound) {n d i : UInt16}
    (hi : interner.pool.slots[i.toNat]? = some (.nameAndType n d)) :
    Sound { interner with pairs := interner.pairs.insert (n, d) i } := by
  refine ⟨h.texts, fun n' d' j hj => ?_⟩
  simp only [Std.HashMap.getElem?_insert] at hj
  split at hj
  · simp_all
  · exact h.pairs n' d' j hj

/-- A text is found in the index, or pushed and put there. -/
theorem text_eq_ok {s : String} {i : UInt16} (h : Interner.text s interner = .ok i interner') :
    interner.texts[Utf8.encode s]? = some i ∧ interner' = interner ∨
      ∃ pool, ConstantPool.pushText s interner.pool = .ok i pool ∧
        interner' = { interner with pool, texts := interner.texts.insert (Utf8.encode s) i } := by
  obtain ⟨_, _, hget, h⟩ := estate_bind_eq_ok_iff.1 h
  cases hget
  cases hlook : interner.texts[Utf8.encode s]? with
  | some j =>
    rw [hlook] at h
    cases h
    exact .inl ⟨rfl, rfl⟩
  | none =>
    rw [hlook] at h
    obtain ⟨j, _, hpush, h⟩ := estate_bind_eq_ok_iff.1 h
    cases h
    obtain ⟨pool, hpool, rfl⟩ := onPool_eq_ok_iff.1 hpush
    exact .inr ⟨pool, hpool, rfl⟩

/-- The texts of a name-and-type are interned, and then it is found in the index, or pushed and put
there. -/
theorem nameAndType_eq_ok {name descriptor : String} {i : UInt16}
    (h : Interner.nameAndType name descriptor interner = .ok i interner') :
    ∃ n d middle last, Interner.text name interner = .ok n middle ∧
      Interner.text descriptor middle = .ok d last ∧
      (last.pairs[(n, d)]? = some i ∧ interner' = last ∨
        ∃ pool, ConstantPool.push (.nameAndType n d) last.pool = .ok i pool ∧
          interner' = { last with pool, pairs := last.pairs.insert (n, d) i }) := by
  obtain ⟨n, middle, hn, h⟩ := estate_bind_eq_ok_iff.1 h
  obtain ⟨d, last, hd, h⟩ := estate_bind_eq_ok_iff.1 h
  obtain ⟨_, _, hget, h⟩ := estate_bind_eq_ok_iff.1 h
  cases hget
  refine ⟨n, d, middle, last, hn, hd, ?_⟩
  cases hlook : last.pairs[(n, d)]? with
  | some j =>
    rw [hlook] at h
    cases h
    exact .inl ⟨rfl, rfl⟩
  | none =>
    rw [hlook] at h
    obtain ⟨j, _, hpush, h⟩ := estate_bind_eq_ok_iff.1 h
    cases h
    obtain ⟨pool, hpool, rfl⟩ := onPool_eq_ok_iff.1 hpush
    exact .inr ⟨pool, hpool, rfl⟩

theorem Sound.text (h : interner.Sound) {s : String} {i : UInt16}
    (hs : Interner.text s interner = .ok i interner') :
    interner'.Sound ∧ interner.pool.Grows interner'.pool ∧ interner'.pool.text i = .ok s := by
  obtain ⟨hlook, rfl⟩ | ⟨pool, hpool, rfl⟩ := text_eq_ok hs
  · exact ⟨h, .refl _, ConstantPool.text_eq_ok_iff.2 (h.texts _ _ hlook)⟩
  · obtain ⟨hindex, hslots⟩ := pushText_eq_ok hpool
    have hgrows : interner.pool.Grows pool := .push hslots rfl
    have hi : pool.slots[i.toNat]? = some (.utf8 (Utf8.encode s)) := by
      rw [hslots, hindex]
      exact Array.getElem?_push_size
    exact ⟨(h.keeps hgrows.keeps).insert_text hi, hgrows, ConstantPool.text_eq_ok_iff.2 hi⟩

/-- A text that no constant holds is appended, if there is room for it. -/
theorem Sound.text_of_absent (h : interner.Sound) (s : String)
    (habsent : Constant.utf8 (Utf8.encode s) ∉ interner.pool.slots)
    (hshort : s.utf8ByteSize ≤ ConstantPool.limit)
    (hroom : interner.pool.size < ConstantPool.limit) :
    ∃ interner', Interner.text s interner = .ok interner.pool.size.toUInt16 interner' ∧
      interner'.Sound ∧
      interner'.pool = ⟨interner.pool.slots.push (.utf8 (Utf8.encode s))⟩ := by
  have hlook : interner.texts[Utf8.encode s]? = none := by
    rw [Option.eq_none_iff_forall_ne_some]
    intro i hi
    exact habsent (Array.mem_of_getElem? (h.texts _ i hi))
  have hpush : ConstantPool.pushText s interner.pool = .ok interner.pool.size.toUInt16
      ⟨interner.pool.slots.push (.utf8 (Utf8.encode s))⟩ := by
    simp [ConstantPool.pushText, ConstantPool.push, Constant.width, Constant.isWide,
      Nat.not_lt.2 hshort, Nat.not_lt.2 hroom]
  have hrun : Interner.text s interner = .ok interner.pool.size.toUInt16
      ⟨⟨interner.pool.slots.push (.utf8 (Utf8.encode s))⟩,
        interner.texts.insert (Utf8.encode s) interner.pool.size.toUInt16, interner.pairs⟩ := by
    rw [Interner.text, estate_bind_of_ok (estate_get_eq interner), hlook]
    exact estate_bind_of_ok (onPool_eq_ok_iff.2 ⟨_, hpush, rfl⟩) _
  exact ⟨_, hrun, (h.text hrun).1, rfl⟩

theorem Sound.nameAndType (h : interner.Sound) {name descriptor : String} {i : UInt16}
    (hs : Interner.nameAndType name descriptor interner = .ok i interner') :
    interner'.Sound ∧ interner.pool.Grows interner'.pool ∧
      interner'.pool.nameAndType i = .ok (name, descriptor) := by
  obtain ⟨n, d, middle, last, hn, hd, hlast⟩ := nameAndType_eq_ok hs
  obtain ⟨hmiddle, hgrows, hname⟩ := h.text hn
  obtain ⟨hsound, hgrows', hdescriptor⟩ := hmiddle.text hd
  obtain ⟨hlook, rfl⟩ | ⟨pool, hpool, rfl⟩ := hlast
  · exact ⟨hsound, hgrows.trans hgrows', ConstantPool.nameAndType_eq_ok_iff.2
      ⟨n, d, hsound.pairs _ _ _ hlook, hgrows'.keeps.text hname, hdescriptor⟩⟩
  · obtain ⟨hindex, hslots⟩ := ConstantPool.push_eq_ok rfl hpool
    have hpushed : last.pool.Grows pool := .push hslots rfl
    have hi : pool.slots[i.toNat]? = some (.nameAndType n d) := by
      rw [hslots, hindex]
      exact Array.getElem?_push_size
    refine ⟨(hsound.keeps hpushed.keeps).insert_pair hi, (hgrows.trans hgrows').trans hpushed, ?_⟩
    exact ConstantPool.nameAndType_eq_ok_iff.2
      ⟨n, d, hi, (hgrows'.trans hpushed).keeps.text hname, hpushed.keeps.text hdescriptor⟩

/-! ## Replacing -/

/-- A replaced constant leaves the other slots and the indexes as they are. -/
theorem update_eq_ok_iff {i : UInt16} {f : Constant → Option Constant} :
    update i f interner = .ok () interner' ↔
      ∃ old new, interner.pool.get i = .ok old ∧ f old = some new ∧
        interner' = { interner with
          pool := ⟨interner.pool.slots.setIfInBounds i.toNat new⟩ } := by
  refine onPool_eq_ok_iff.trans ?_
  cases hget : interner.pool.get i with
  | error e => simp
  | ok old =>
    cases hf : f old with
    | none => simp [hf]
    | some new => simp [hf, hget, ConstantPool.set, bind, Except.bind, pure, Except.pure, eq_comm]

/-- Replacing a constant that is not shared, after some were appended. -/
theorem Sound.update (h : interner.Sound) (hgrows : pool.Grows interner.pool) {i : UInt16}
    {k : Constant} {f : Constant → Option Constant} (hk : pool.slots[i.toNat]? = some k)
    (hshared : k.isShared = false) (hupdate : update i f interner = .ok () interner') :
    ∃ k', f k = some k' ∧ interner'.Sound ∧ pool.Replaces interner'.pool i.toNat k' ∧
      interner.pool.Keeps interner'.pool := by
  obtain ⟨old, new, hold, hnew, rfl⟩ := update_eq_ok_iff.1 hupdate
  have hki := hgrows.getElem? hk
  obtain rfl : k = old := Option.some.inj (hki.symm.trans (ConstantPool.get_eq_ok_iff.1 hold).1)
  have hreplaces : interner.pool.Replaces
      ⟨interner.pool.slots.setIfInBounds i.toNat new⟩ i.toNat new := ⟨_, .refl _, rfl⟩
  have hkeeps := hreplaces.keeps hki hshared
  exact ⟨new, hnew, h.keeps hkeeps, ⟨_, hgrows, rfl⟩, hkeeps⟩

/-! ## Limits -/

theorem withinLimits_text (h : interner.pool.WithinLimits) {s : String} {i : UInt16}
    (hs : Interner.text s interner = .ok i interner') : interner'.pool.WithinLimits := by
  obtain ⟨-, rfl⟩ | ⟨pool, hpool, rfl⟩ := text_eq_ok hs
  · exact h
  · obtain ⟨hshort, hpush⟩ := ConstantPool.pushText_eq_ok_iff.1 hpool
    refine h.push (fun bytes heq => ?_) hpush
    cases heq
    rwa [Utf8.length_encode]

theorem withinLimits_nameAndType (h : interner.pool.WithinLimits) {name descriptor : String}
    {i : UInt16} (hs : Interner.nameAndType name descriptor interner = .ok i interner') :
    interner'.pool.WithinLimits := by
  obtain ⟨n, d, middle, last, hn, hd, hlast⟩ := nameAndType_eq_ok hs
  have hwithin := withinLimits_text (withinLimits_text h hn) hd
  obtain ⟨-, rfl⟩ | ⟨pool, hpool, rfl⟩ := hlast
  · exact hwithin
  · exact hwithin.push (by simp) hpool

/-- Replacing a constant by one that is no text brings no longer text. -/
theorem withinLimits_update (h : interner.pool.WithinLimits) {i : UInt16}
    {f : Constant → Option Constant} (hf : ∀ k k', f k = some k' → k'.isShared = false)
    (hupdate : update i f interner = .ok () interner') : interner'.pool.WithinLimits := by
  obtain ⟨old, new, -, hnew, rfl⟩ := update_eq_ok_iff.1 hupdate
  refine h.setIfInBounds fun bytes heq => ?_
  have := hf old new hnew
  rw [heq] at this
  cases this

end Interner

end Renaming

end JarRefit
