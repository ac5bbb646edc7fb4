import JarRefit.ClassFile.Stripping
import JarRefit.Proofs.Access.Bits
import JarRefit.Proofs.Renaming.Representable

/-!
# Stripping a class

Stripping takes the synthetic flag from all members of a class or from none, and leaves a class file
that can be read again, whether or not its bytes are written anew.

## Main definitions

* `ClassFile.KeepsSynthetics`: the classes whose members keep their flags.
* `ClassFile.stripped`: a class file without synthetic members.
-/
namespace JarRefit

open Access (Flags)

/-- A flag that is not there cannot be taken. -/
theorem Access.Flags.remove_syntheticBit_eq_self {f : Flags}
    (h : f.contains .syntheticBit = false) : f.remove .syntheticBit = f := by
  rw [Flags.contains_syntheticBit] at h
  refine Flags.ext_bit fun i _ => ?_
  rw [Flags.bit_remove, Flags.bit_syntheticBit]
  by_cases hi : i = 12
  · simp [hi, h]
  · simp [hi]

namespace ClassFile

variable {c c' : ClassFile} {d : Member} {keeps : Bool}

/-! ## Members -/

theorem Member.isSynthetic_strip (d : Member) : d.strip.isSynthetic = false := by
  simp [Member.isSynthetic, Member.strip, Flags.contains_syntheticBit, Flags.bit_syntheticBit]

theorem Member.strip_eq_self (h : d.isSynthetic = false) : d.strip = d := by
  rw [Member.strip, Flags.remove_syntheticBit_eq_self h]

theorem map_strip_eq_self {ms : List Member} (h : ms.countP Member.isSynthetic = 0) :
    ms.map Member.strip = ms := by
  rw [List.countP_eq_zero] at h
  refine (List.map_congr_left fun d hd => ?_).trans ms.map_id
  exact Member.strip_eq_self (by simpa using h d hd)

/-! ## Classes -/

/-- The members keep their synthetic flags: the class is synthetic itself, or an enumeration. -/
def KeepsSynthetics (c : ClassFile) : Prop :=
  c.access.contains .syntheticBit = true ∨ c.access.contains .enumBit = true ∨
    c.superName = .ok (some enumBase)

/-- The class file without synthetic flags on its members. -/
def stripped (c : ClassFile) : ClassFile :=
  { c with fields := c.fields.map Member.strip, methods := c.methods.map Member.strip }

theorem keepsSynthetics_eq_ok (h : c.keepsSynthetics = .ok keeps) :
    keeps = true ↔ c.KeepsSynthetics := by
  unfold keepsSynthetics isEnum at h
  unfold KeepsSynthetics
  cases hsynthetic : c.access.contains .syntheticBit with
  | true =>
    rw [hsynthetic, if_pos rfl, except_pure_eq_ok_iff] at h
    simp [← h]
  | false =>
    cases henum : c.access.contains .enumBit with
    | true =>
      simp only [hsynthetic, henum, Bool.false_eq_true, if_false, if_true] at h
      rw [except_pure_eq_ok_iff] at h
      simp [← h]
    | false =>
      simp only [hsynthetic, henum, Bool.false_eq_true, if_false] at h
      obtain ⟨superName, hsuper, h⟩ := except_bind_eq_ok_iff.1 h
      rw [except_pure_eq_ok_iff] at h
      simp [← h, hsuper]

theorem stripped_eq_self (h : c.syntheticCount = 0) : c.stripped = c := by
  obtain ⟨hfields, hmethods⟩ := Nat.add_eq_zero_iff.1 h
  rw [stripped, map_strip_eq_self hfields, map_strip_eq_self hmethods]

theorem extents_stripped (c : ClassFile) : c.stripped.extents = c.extents := by
  simp [stripped, extents, Member.strip, Member.extents, Function.comp_def]

theorem representable_stripped (h : c.Representable) : c.stripped.Representable := by
  rw [representable_iff_extents] at h ⊢
  rwa [extents_stripped]

theorem strip_eq_ok {n : Nat} (h : c.strip = .ok (c', n)) :
    ∃ keeps, c.keepsSynthetics = .ok keeps ∧ c' = (if keeps then c else c.stripped) ∧
      (n = 0 → c' = c) := by
  obtain ⟨keeps, hkeeps, h⟩ := except_bind_eq_ok_iff.1 h
  refine ⟨keeps, hkeeps, ?_⟩
  cases keeps with
  | true =>
    cases h
    exact ⟨rfl, fun _ => rfl⟩
  | false =>
    cases h
    exact ⟨rfl, stripped_eq_self⟩

/-- What stripping leaves of the bytes of a class file is the class file, or it without synthetic
members. -/
theorem decode_of_stripBytes? {data? : Option (List UInt8)} (hc : c.Representable)
    (h : stripBytes? c.encode = .ok data?) :
    ∃ keeps, c.keepsSynthetics = .ok keeps ∧
      decode (data?.getD c.encode) = .ok (if keeps then c else c.stripped) := by
  have hsame := decode_encode_of_representable hc
  obtain ⟨_, hdecode, h⟩ := except_bind_eq_ok_iff.1 h
  cases hsame.symm.trans hdecode
  obtain ⟨⟨c', n⟩, hstrip, h⟩ := except_bind_eq_ok_iff.1 h
  obtain ⟨keeps, hkeeps, hc', hzero⟩ := strip_eq_ok hstrip
  refine ⟨keeps, hkeeps, ?_⟩
  rw [← hc']
  cases h
  split
  · next hn => rw [hzero hn, Option.getD_none, hsame]
  · have hc' : c'.Representable := by
      rw [hc']
      split
      · exact hc
      · exact representable_stripped hc
    exact decode_encode_of_representable hc'

end ClassFile

end JarRefit
