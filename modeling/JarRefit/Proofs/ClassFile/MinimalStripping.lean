import JarRefit.Proofs.ClassFile.Stripping

/-!
# What stripping changes in the bytes

A synthetic flag is one bit of the first byte of a member. Stripping clears that bit where it is set
and keeps every other byte at its place, so a stripped class file has nothing more to strip.

## Main definitions

* `ClassFile.ClearedAt`: bytes that differ from others in the synthetic bit at some places.
* `ClassFile.syntheticOffsets`: where the synthetic members of a class file start in its bytes.
-/
namespace JarRefit.ClassFile

open Access (Flags)

/-- The upper byte of access flags without the synthetic flag. -/
def clearSynthetic (b : UInt8) : UInt8 :=
  b &&& 0xEF

theorem encodeU16_remove_syntheticBit (f : Flags) : encodeU16 (f.remove .syntheticBit).bits =
    [clearSynthetic (f.bits >>> 8).toUInt8, f.bits.toUInt8] := by
  have hupper : ((~~~ (0x1000 : UInt16)) >>> 8).toUInt8 = 0xEF := rfl
  have hlower : (~~~ (0x1000 : UInt16)).toUInt8 = 0xFF := rfl
  simp only [encodeU16, Flags.remove, Flags.syntheticBit, clearSynthetic, UInt16.shiftRight_and,
    UInt16.toUInt8_and, hupper, hlower]
  have hall : f.bits.toUInt8 &&& 0xFF = f.bits.toUInt8 := UInt8.and_neg_one
  rw [hall]

/-! ## Bytes that differ in a few places -/

/-- `new` is `old` with the synthetic bit cleared at the places and nowhere else. -/
structure ClearedAt (places : List Nat) (old new : List UInt8) : Prop where
  inside : ∀ j ∈ places, j < old.length
  length : new.length = old.length
  getElem? : ∀ j, new[j]? = if j ∈ places then old[j]?.map clearSynthetic else old[j]?

namespace ClearedAt

variable {s t : List Nat} {a a' b b' : List UInt8}

theorem refl (a : List UInt8) : ClearedAt [] a a :=
  ⟨by simp, rfl, by simp⟩

theorem append (ha : ClearedAt s a a') (hb : ClearedAt t b b') :
    ClearedAt (s ++ t.map (a.length + ·)) (a ++ b) (a' ++ b') where
  inside j hj := by
    rw [List.length_append]
    rcases List.mem_append.1 hj with hj | hj
    · exact Nat.lt_add_right _ (ha.inside j hj)
    · obtain ⟨k, hk, rfl⟩ := List.mem_map.1 hj
      exact Nat.add_lt_add_left (hb.inside k hk) _
  length := by simp [ha.length, hb.length]
  getElem? j := by
    by_cases hj : j < a.length
    · have hmem : j ∈ s ++ t.map (a.length + ·) ↔ j ∈ s := by
        simp only [List.mem_append, List.mem_map, or_iff_left_iff_imp]
        rintro ⟨k, -, rfl⟩
        omega
      rw [List.getElem?_append_left (ha.length ▸ hj), List.getElem?_append_left hj, ha.getElem? j]
      simp only [hmem]
    · obtain ⟨k, rfl⟩ := Nat.exists_eq_add_of_le (Nat.le_of_not_lt hj)
      have hmem : a.length + k ∈ s ++ t.map (a.length + ·) ↔ k ∈ t := by
        have hout : a.length + k ∉ s := fun h => hj (ha.inside _ h)
        simp [hout]
      have hnew : (a' ++ b')[a.length + k]? = b'[k]? := by
        rw [← ha.length, List.getElem?_append_right (Nat.le_add_right ..), Nat.add_sub_cancel_left]
      have hold : (a ++ b)[a.length + k]? = b[k]? := by
        rw [List.getElem?_append_right (Nat.le_add_right ..), Nat.add_sub_cancel_left]
      rw [hnew, hold, hb.getElem? k]
      simp only [hmem]

end ClearedAt

/-! ## Members -/

/-- Where the synthetic members among these start in their bytes. -/
def Member.syntheticOffsets : List Member → List Nat
  | [] => []
  | d :: ms =>
    (if d.isSynthetic then [0] else []) ++ (syntheticOffsets ms).map (d.encode.length + ·)

theorem Member.clearedAt_strip (d : Member) :
    ClearedAt (if d.isSynthetic then [0] else []) d.encode d.strip.encode := by
  split
  next h =>
    obtain ⟨first, rest, hold, hnew⟩ :
        ∃ first rest, d.encode = first :: rest ∧ d.strip.encode = clearSynthetic first :: rest := by
      rw [encode, encode, strip, encodeU16_remove_syntheticBit]
      exact ⟨_, _, rfl, rfl⟩
    refine ⟨by simp [hold], by simp [hold, hnew], fun j => ?_⟩
    rw [hold, hnew]
    cases j <;> simp
  next h =>
    rw [Member.strip_eq_self (by simpa using h)]
    exact .refl _

theorem Member.clearedAt_map_strip (ms : List Member) :
    ClearedAt (syntheticOffsets ms) (ms.flatMap encode) ((ms.map strip).flatMap encode) := by
  induction ms with
  | nil => exact .refl []
  | cons d ms ih => exact d.clearedAt_strip.append ih

/-- An offset is that of a synthetic member behind the bytes of the members before it. -/
theorem Member.mem_syntheticOffsets {ms : List Member} {j : Nat} :
    j ∈ syntheticOffsets ms ↔ ∃ before d after, ms = before ++ d :: after ∧ d.isSynthetic = true ∧
      j = (before.flatMap encode).length := by
  induction ms generalizing j with
  | nil => simp [syntheticOffsets]
  | cons e ms ih =>
    rw [syntheticOffsets, List.mem_append, List.mem_map]
    constructor
    · rintro (hfirst | ⟨k, hk, rfl⟩)
      · obtain ⟨he, rfl⟩ : e.isSynthetic = true ∧ j = 0 := by simpa using hfirst
        exact ⟨[], e, ms, rfl, he, rfl⟩
      · obtain ⟨before, d, after, rfl, hd, rfl⟩ := ih.1 hk
        exact ⟨e :: before, d, after, rfl, hd, by simp⟩
    · rintro ⟨before, d, after, hms, hd, rfl⟩
      cases before with
      | nil =>
        obtain ⟨rfl, rfl⟩ := List.cons.inj hms
        exact .inl (by simp [hd])
      | cons f before =>
        obtain ⟨rfl, rfl⟩ := List.cons.inj hms
        exact .inr ⟨_, ih.2 ⟨before, d, after, rfl, hd, rfl⟩, by simp⟩

/-! ## Class files -/

variable {c : ClassFile} {bytes : List UInt8}

/-- The bytes in front of the fields. -/
def bytesToFields (c : ClassFile) : List UInt8 :=
  encodeU32 magic ++ (encodeU16 c.minorVersion ++ (encodeU16 c.majorVersion ++
    (c.pool.encode ++ (encodeU16 c.access.bits ++ (encodeU16 c.thisClass ++
      (encodeU16 c.superClass ++ (encodeCounted encodeU16 c.interfaces ++
        encodeU16 c.fields.length.toUInt16)))))))

/-- The bytes in front of the methods. -/
def bytesToMethods (c : ClassFile) : List UInt8 :=
  c.bytesToFields ++ c.fields.flatMap Member.encode ++ encodeU16 c.methods.length.toUInt16

theorem encode_eq_bytesToMethods (c : ClassFile) : c.encode = c.bytesToMethods ++
    c.methods.flatMap Member.encode ++ encodeCounted Attribute.encode c.attributes := by
  simp only [encode, encodeCounted, bytesToMethods, bytesToFields, List.append_assoc]

/-- Where the synthetic fields and methods start in the bytes of the class file. -/
def syntheticOffsets (c : ClassFile) : List Nat :=
  (Member.syntheticOffsets c.fields).map (c.bytesToFields.length + ·) ++
    (Member.syntheticOffsets c.methods).map (c.bytesToMethods.length + ·)

/-- At every offset stands a field or a method with the synthetic flag. -/
theorem exists_member_of_mem_syntheticOffsets {j : Nat} (hj : j ∈ c.syntheticOffsets) :
    ∃ d ∈ c.fields ++ c.methods, d.isSynthetic = true ∧ d.encode <+: c.encode.drop j := by
  rw [encode_eq_bytesToMethods]
  rcases List.mem_append.1 hj with hj | hj
  · obtain ⟨k, hk, rfl⟩ := List.mem_map.1 hj
    obtain ⟨before, d, after, hfields, hd, rfl⟩ := Member.mem_syntheticOffsets.1 hk
    refine ⟨d, by simp [hfields], hd, ?_⟩
    rw [bytesToMethods, hfields, ← List.length_append]
    simp
  · obtain ⟨k, hk, rfl⟩ := List.mem_map.1 hj
    obtain ⟨before, d, after, hmethods, hd, rfl⟩ := Member.mem_syntheticOffsets.1 hk
    refine ⟨d, by simp [hmethods], hd, ?_⟩
    rw [hmethods, ← List.length_append]
    simp

theorem bytesToFields_stripped (c : ClassFile) : c.stripped.bytesToFields = c.bytesToFields := by
  simp [bytesToFields, stripped]

theorem bytesToMethods_stripped (c : ClassFile) : c.stripped.bytesToMethods = c.bytesToFields ++
    (c.fields.map Member.strip).flatMap Member.encode ++ encodeU16 c.methods.length.toUInt16 := by
  rw [bytesToMethods, bytesToFields_stripped]
  simp [stripped]

theorem clearedAt_stripped (c : ClassFile) :
    ClearedAt c.syntheticOffsets c.encode c.stripped.encode := by
  have hfields := (ClearedAt.refl c.bytesToFields).append (Member.clearedAt_map_strip c.fields)
  have hcount := hfields.append (.refl (encodeU16 c.methods.length.toUInt16))
  have hmethods := hcount.append (Member.clearedAt_map_strip c.methods)
  have hall := hmethods.append (.refl (encodeCounted Attribute.encode c.attributes))
  rw [encode_eq_bytesToMethods, encode_eq_bytesToMethods, bytesToMethods_stripped]
  rw [List.map_nil, List.map_nil, List.append_nil, List.append_nil, List.nil_append] at hall
  exact hall

/-! ## Stripping bytes -/

theorem syntheticCount_stripped (c : ClassFile) : c.stripped.syntheticCount = 0 := by
  simp [syntheticCount, stripped, List.countP_map, Function.comp_def, Member.isSynthetic_strip]

theorem syntheticCount_eq_zero_iff :
    c.syntheticCount = 0 ↔ ∀ d ∈ c.fields ++ c.methods, d.isSynthetic = false := by
  simp [syntheticCount, List.countP_eq_zero, or_imp, forall_and]

theorem keepsSynthetics_stripped (c : ClassFile) :
    c.stripped.keepsSynthetics = c.keepsSynthetics := rfl

theorem keepsSynthetics_eq_of_isEnum {enum : Bool} (h : c.isEnum = .ok enum) :
    c.keepsSynthetics = .ok (c.access.contains .syntheticBit || enum) := by
  unfold keepsSynthetics
  split <;> simp_all [pure, Except.pure]

/-- What stripping the bytes of a class file comes to. -/
theorem stripBytes?_eq_ok_iff {data? : Option (List UInt8)} (h : decode bytes = .ok c) :
    stripBytes? bytes = .ok data? ↔ ∃ keeps, c.keepsSynthetics = .ok keeps ∧
      data? = if keeps ∨ c.syntheticCount = 0 then none else some c.stripped.encode := by
  have hrun : stripBytes? bytes = c.keepsSynthetics >>= fun keeps =>
      pure (if keeps ∨ c.syntheticCount = 0 then none else some c.stripped.encode) := by
    rw [stripBytes?, h]
    change c.strip >>= _ = _
    rw [strip, bind_assoc]
    refine congrArg _ (funext fun keeps => ?_)
    cases keeps with
    | true => rfl
    | false =>
      simp only [Bool.false_eq_true, if_false, pure_bind, false_or]
      rfl
  rw [hrun, except_bind_eq_ok_iff]
  refine exists_congr fun keeps => and_congr_right fun _ => ?_
  rw [except_pure_eq_ok_iff, eq_comm]

/-- Stripping the bytes of a class file clears the synthetic bit at the start of the members that
have it, which can be done only once. It does nothing just if the class keeps its flags or has
none. -/
theorem stripBytes?_minimal (h : decode bytes = .ok c) (hsame : c.encode = bytes) :
    (∀ bytes', stripBytes? bytes = .ok (some bytes') →
      bytes'.length = bytes.length ∧
      (∀ j, bytes'[j]? =
        if j ∈ c.syntheticOffsets then bytes[j]?.map clearSynthetic else bytes[j]?) ∧
      (∀ j ∈ c.syntheticOffsets, ∃ d ∈ c.fields ++ c.methods,
        d.isSynthetic = true ∧ d.encode <+: bytes.drop j) ∧
      (∃ c' n, c.strip = .ok (c', n) ∧ decode bytes' = .ok c') ∧
      stripBytes? bytes' = .ok none) ∧
    ∀ enum, c.isEnum = .ok enum →
      (stripBytes? bytes = .ok none ↔ c.access.contains .syntheticBit = true ∨ enum = true ∨
        ∀ d ∈ c.fields ++ c.methods, d.isSynthetic = false) := by
  subst hsame
  have hc := representable_of_decode_encode h
  constructor
  · intro bytes' hstrip
    obtain ⟨keeps, hkeeps, hbytes⟩ := (stripBytes?_eq_ok_iff h).1 hstrip
    obtain ⟨rfl, rfl⟩ : keeps = false ∧ bytes' = c.stripped.encode := by
      split at hbytes <;> simp_all
    have hread := decode_encode_of_representable (representable_stripped hc)
    have hcleared := clearedAt_stripped c
    have hagain : stripBytes? c.stripped.encode = .ok none := by
      have hkept := (keepsSynthetics_stripped c).trans hkeeps
      refine (stripBytes?_eq_ok_iff hread).2 ⟨false, hkept, ?_⟩
      rw [if_pos (.inr (syntheticCount_stripped c))]
    refine ⟨hcleared.length, hcleared.getElem?, fun j => exists_member_of_mem_syntheticOffsets,
      ⟨c.stripped, c.syntheticCount, ?_, hread⟩, hagain⟩
    rw [strip, hkeeps]
    rfl
  · intro enum henum
    rw [stripBytes?_eq_ok_iff h, keepsSynthetics_eq_of_isEnum henum, ← syntheticCount_eq_zero_iff]
    cases c.access.contains .syntheticBit <;> cases enum <;> simp

/-- A class with a plain field, a synthetic one and a synthetic method. -/
def bridged : ClassFile where
  minorVersion := 0
  majorVersion := 52
  pool := ⟨#[.unusable, .utf8 [102], .classRef 1]⟩
  access := ⟨1⟩
  thisClass := 2
  superClass := 0
  interfaces := []
  fields := [⟨⟨0x0002⟩, 1, 1, []⟩, ⟨⟨0x1002⟩, 1, 1, []⟩]
  methods := [⟨⟨0x1041⟩, 1, 1, []⟩]
  attributes := []

theorem stripBytes?_minimal_bridged :
    decode bridged.encode = .ok bridged ∧
      stripBytes? bridged.encode = .ok (some bridged.stripped.encode) ∧
      (∀ j, bridged.stripped.encode[j]? =
        if j ∈ [35, 45] then bridged.encode[j]?.map clearSynthetic else bridged.encode[j]?) ∧
      stripBytes? bridged.stripped.encode = .ok none ∧
      bridged.isEnum = .ok false ∧ stripBytes? bridged.encode ≠ .ok none := by
  have hread : decode bridged.encode = .ok bridged := rfl
  have hminimal := stripBytes?_minimal hread rfl
  obtain ⟨-, hbytes, -, -, hagain⟩ := hminimal.1 bridged.stripped.encode rfl
  have hoffsets : bridged.syntheticOffsets = [35, 45] := rfl
  rw [hoffsets] at hbytes
  have hnone := (hminimal.2 false rfl).not.2 (by decide)
  exact ⟨hread, rfl, hbytes, hagain, rfl, hnone⟩

end JarRefit.ClassFile
