import JarRefit.Proofs.ClassFile.MinimalStripping

/-!
# Members that lose their synthetic flag

The flags of a member stand where it starts in the bytes of its class file. Stripping moves nothing,
so the flags that it clears can be counted place by place, in the bytes before and after.

## Main definitions

* `ClassFile.memberOffsets`: where the fields and methods of a class file start in its bytes.
* `ClassFile.clearedMembers`: how many of them are synthetic in some bytes and no longer in others.
-/
namespace JarRefit.ClassFile

open Access (Flags)

/-- Whether the flags that stand at an offset have the synthetic one among them. -/
def isSyntheticAt (bytes : List UInt8) (j : Nat) : Bool :=
  match Decoder.u16 (bytes.drop j) with
  | .ok (bits, _) => Flags.contains ⟨bits⟩ .syntheticBit
  | .error _ => false

/-- Where these members start in their bytes. -/
def Member.offsets : List Member → List Nat
  | [] => []
  | d :: ms => 0 :: (offsets ms).map (d.encode.length + ·)

/-- Where the fields and methods start in the bytes of the class file. -/
def memberOffsets (c : ClassFile) : List Nat :=
  (Member.offsets c.fields).map (c.bytesToFields.length + ·) ++
    (Member.offsets c.methods).map (c.bytesToMethods.length + ·)

/-- How many fields and methods of the class file are synthetic in the old bytes and not in the
new ones. -/
def clearedMembers (c : ClassFile) (old new : List UInt8) : Nat :=
  c.memberOffsets.countP fun j => isSyntheticAt old j && !isSyntheticAt new j

variable {c : ClassFile} {bytes : List UInt8}

/-! ## Flags at offsets -/

theorem isSyntheticAt_append {front : List UInt8} {n : Nat} (hfront : front.length = n)
    (rest : List UInt8) (j : Nat) :
    isSyntheticAt (front ++ rest) (n + j) = isSyntheticAt rest j := by
  rw [isSyntheticAt, ← hfront, List.drop_length_add_append]
  rfl

theorem isSyntheticAt_encode (d : Member) (rest : List UInt8) :
    isSyntheticAt (d.encode ++ rest) 0 = d.isSynthetic := by
  have hread := (Decoder.u16_exact (d.encode ++ rest) d.access.bits _).2
    ⟨trivial, by rw [Member.encode, List.append_assoc]⟩
  rw [isSyntheticAt, List.drop_zero, hread]
  rfl

theorem map_isSyntheticAt_offsets (ms : List Member) (rest : List UInt8) :
    (Member.offsets ms).map (isSyntheticAt (ms.flatMap Member.encode ++ rest)) =
      ms.map Member.isSynthetic := by
  induction ms with
  | nil => rfl
  | cons d ms ih =>
    rw [Member.offsets, List.map_cons, List.map_cons, List.map_map, List.flatMap_cons,
      List.append_assoc, isSyntheticAt_encode, ← ih]
    refine congrArg _ (List.map_congr_left fun j _ => ?_)
    exact isSyntheticAt_append rfl _ j

/-- The number of slots that the bytes announce takes the same room, whatever it is. -/
theorem encodeAnnouncing_eq_append (count : UInt16) (c : ClassFile) :
    ∃ front, front.length = c.bytesToFields.length ∧
      encodeAnnouncing count c = front ++ (c.fields.flatMap Member.encode ++
        (encodeU16 c.methods.length.toUInt16 ++ (c.methods.flatMap Member.encode ++
          encodeCounted Attribute.encode c.attributes))) := by
  refine ⟨encodeU32 magic ++ (encodeU16 c.minorVersion ++ (encodeU16 c.majorVersion ++
    (encodeU16 count ++ (c.pool.body ++ (encodeU16 c.access.bits ++ (encodeU16 c.thisClass ++
      (encodeU16 c.superClass ++ (encodeCounted encodeU16 c.interfaces ++
        encodeU16 c.fields.length.toUInt16)))))))), ?_, ?_⟩
  · simp [bytesToFields, encodePool_eq, encodeU16]
  · simp only [encodeAnnouncing, encodeTables, encodeCounted, List.append_assoc]

theorem map_isSyntheticAt_memberOffsets (count : UInt16) (c : ClassFile) :
    c.memberOffsets.map (isSyntheticAt (encodeAnnouncing count c)) =
      (c.fields ++ c.methods).map Member.isSynthetic := by
  obtain ⟨front, hfront, hbytes⟩ := encodeAnnouncing_eq_append count c
  have hmethods : (front ++ (c.fields.flatMap Member.encode ++
      encodeU16 c.methods.length.toUInt16)).length = c.bytesToMethods.length := by
    simp [bytesToMethods, hfront]
  rw [memberOffsets, List.map_append, List.map_map, List.map_map, List.map_append]
  congr 1
  · rw [← map_isSyntheticAt_offsets c.fields]
    exact List.map_congr_left fun j _ => hbytes ▸ isSyntheticAt_append hfront _ j
  · rw [← map_isSyntheticAt_offsets c.methods (encodeCounted Attribute.encode c.attributes)]
    refine List.map_congr_left fun j _ => ?_
    rw [hbytes, ← isSyntheticAt_append hmethods]
    simp only [Function.comp_apply, List.append_assoc]

/-! ## Stripping -/

theorem Member.length_encode_strip (d : Member) : d.strip.encode.length = d.encode.length := by
  simp [Member.encode, Member.strip, encodeU16]

theorem Member.offsets_map_strip (ms : List Member) : offsets (ms.map strip) = offsets ms := by
  induction ms with
  | nil => rfl
  | cons d ms ih => rw [List.map_cons, offsets, offsets, ih, length_encode_strip]

theorem memberOffsets_stripped (c : ClassFile) : c.stripped.memberOffsets = c.memberOffsets := by
  have hmethods : c.stripped.bytesToMethods.length = c.bytesToMethods.length := by
    rw [bytesToMethods_stripped, bytesToMethods]
    simp [List.length_flatMap, Function.comp_def, Member.length_encode_strip]
  rw [memberOffsets, memberOffsets, bytesToFields_stripped, hmethods]
  simp [stripped, Member.offsets_map_strip]

theorem isSyntheticAt_stripped {j : Nat} (hj : j ∈ c.memberOffsets) :
    isSyntheticAt c.stripped.encode j = false := by
  rw [← memberOffsets_stripped] at hj
  have hmap := map_isSyntheticAt_memberOffsets c.stripped.pool.size.toUInt16 c.stripped
  rw [← encode_eq] at hmap
  have hmem := hmap ▸ List.mem_map_of_mem hj
  obtain ⟨d, hd, hflag⟩ := List.mem_map.1 hmem
  rw [← hflag]
  exact syntheticCount_eq_zero_iff.1 (syntheticCount_stripped c) d hd

theorem clearedMembers_self (c : ClassFile) (bytes : List UInt8) :
    c.clearedMembers bytes bytes = 0 := by
  simp [clearedMembers]

theorem clearedMembers_stripped (h : decode bytes = .ok c) :
    c.clearedMembers bytes c.stripped.encode = c.syntheticCount := by
  obtain ⟨count, -, -, rfl⟩ := decode_eq_ok_iff.1 h
  calc c.clearedMembers (encodeAnnouncing count c) c.stripped.encode
      = c.memberOffsets.countP (isSyntheticAt (encodeAnnouncing count c)) := by
        refine List.countP_congr fun j hj => ?_
        simp [isSyntheticAt_stripped hj]
    _ = (c.memberOffsets.map (isSyntheticAt (encodeAnnouncing count c))).countP id := by
        rw [List.countP_map, Function.id_comp]
    _ = (c.fields ++ c.methods).countP Member.isSynthetic := by
        rw [map_isSyntheticAt_memberOffsets, List.countP_map, Function.id_comp]
    _ = c.syntheticCount := List.countP_append

/-- Flags are cleared just where the bytes of the class file are written anew. -/
theorem clearedMembers_pos_iff {data? : Option (List UInt8)} (h : decode bytes = .ok c)
    (hstrip : stripBytes? bytes = .ok data?) :
    0 < c.clearedMembers bytes (data?.getD bytes) ↔ data?.isSome = true := by
  obtain ⟨keeps, -, rfl⟩ := (stripBytes?_eq_ok_iff h).1 hstrip
  split
  · simp [clearedMembers_self]
  · next hcount =>
    rw [Option.getD_some, clearedMembers_stripped h]
    simp only [Option.isSome_some, iff_true]
    omega

end JarRefit.ClassFile
