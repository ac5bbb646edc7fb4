import JarRefit.Proofs.ClassFile.RoundTrip

/-!
# Bytes cut short and bytes left over

A class file is read from front to back, and what is read next depends on nothing but the bytes in
front of it. So bytes that are cut short are read as far as they go and end there, and bytes behind
a class file are left over to the last one.

## Main definitions

* `Decoder.Takes`: a reader takes a value off the front of bytes and ends early on less of them.
* `Decoder.Sequential`: a reader takes every value so.
-/
namespace JarRefit.ClassFile

variable {α β : Type}

namespace Decoder

/-- The reader takes `x` off the front of any bytes that start with `taken`, and finds the end
unexpected as long as some of `taken` is missing. -/
structure Takes (read : Decoder α) (x : α) (taken : List UInt8) : Prop where
  whole : ∀ rest, read (taken ++ rest) = .ok (x, rest)
  short : ∀ cut missing, taken = cut ++ missing → missing ≠ [] → read cut = .error .unexpectedEnd

/-- The reader looks at no byte but those it takes. -/
def Sequential (read : Decoder α) : Prop :=
  ∀ input x rest, read input = .ok (x, rest) → ∃ taken, input = taken ++ rest ∧ read.Takes x taken

/-! ## Readers in a row -/

theorem bind_of_ok {read : Decoder α} {next : α → Decoder β} {input rest : List UInt8} {x : α}
    (h : read input = .ok (x, rest)) : (read >>= next) input = next x rest := by
  change (read input >>= fun p => next p.1 p.2) = _
  rw [h]
  rfl

theorem bind_of_error {read : Decoder α} {next : α → Decoder β} {input : List UInt8} {e : Fault}
    (h : read input = .error e) : (read >>= next) input = .error e := by
  change (read input >>= fun p => next p.1 p.2) = _
  rw [h]
  rfl

theorem Takes.bind {read : Decoder α} {next : α → Decoder β} {x : α} {y : β}
    {taken more : List UInt8} (h : read.Takes x taken) (hnext : (next x).Takes y more) :
    (read >>= next).Takes y (taken ++ more) where
  whole rest := by
    rw [List.append_assoc, bind_of_ok (h.whole _)]
    exact hnext.whole rest
  short cut missing hcut hmissing := by
    -- The bytes end in what the first reader takes, or behind it.
    rcases List.append_eq_append_iff.1 hcut with ⟨later, rfl, hmore⟩ | ⟨lost, htaken, hlost⟩
    · rw [bind_of_ok (h.whole later)]
      exact hnext.short later missing hmore hmissing
    · cases lost with
      | nil =>
        obtain rfl : taken = cut := by simpa using htaken
        obtain rfl : missing = more := hlost
        have hread : read taken = .ok (x, []) := by simpa using h.whole []
        rw [bind_of_ok hread]
        exact hnext.short [] missing rfl hmissing
      | cons b lost => exact bind_of_error (h.short cut (b :: lost) htaken (by simp))

namespace Sequential

theorem pure (x : α) : Sequential (Pure.pure x : Decoder α) := by
  intro input y rest h
  obtain ⟨rfl, rfl⟩ := pure_eq_ok_iff.1 h
  exact ⟨[], rfl, fun _ => rfl, fun cut missing hnil hmissing => by simp_all⟩

theorem fault (e : Fault) : Sequential (throw e : Decoder α) := by
  intro input x rest h
  cases h

theorem fault_bind (e : Fault) (next : β → Decoder α) : Sequential (throw e >>= next) := by
  intro input x rest h
  cases h

theorem bind {read : Decoder α} {next : α → Decoder β} (h : read.Sequential)
    (hnext : ∀ x, (next x).Sequential) : (read >>= next).Sequential := by
  intro input y rest hrun
  obtain ⟨x, middle, hread, hlater⟩ := bind_eq_ok_iff.1 hrun
  obtain ⟨taken, rfl, htaken⟩ := h input x middle hread
  obtain ⟨more, rfl, hmore⟩ := hnext x middle y rest hlater
  exact ⟨taken ++ more, (List.append_assoc ..).symm, htaken.bind hmore⟩

theorem map {read : Decoder α} (f : α → β) (h : read.Sequential) : (f <$> read).Sequential := by
  rw [map_eq_pure_bind]
  exact h.bind fun _ => .pure _

theorem ite {p : Prop} [Decidable p] {read other : Decoder α} (h : read.Sequential)
    (hother : other.Sequential) : (if p then read else other).Sequential := by
  split
  · exact h
  · exact hother

end Sequential

/-! ## Numbers and rows of bytes -/

/-- An exact reader of values of one size that ends early on less bytes. -/
theorem Exact.sequential {read : Decoder α} {fits : α → Prop} {write : α → List UInt8} {n : Nat}
    (exact : Exact read fits write) (hsize : ∀ x, fits x → (write x).length = n)
    (hshort : ∀ input, input.length < n → read input = .error .unexpectedEnd) :
    read.Sequential := by
  intro input x rest h
  obtain ⟨hfits, rfl⟩ := (exact _ _ _).1 h
  refine ⟨write x, rfl, fun rest => (exact _ _ _).2 ⟨hfits, rfl⟩, ?_⟩
  intro cut missing hcut hmissing
  have hlength := congrArg List.length hcut
  have hpos := List.length_pos_iff.2 hmissing
  rw [hsize x hfits, List.length_append] at hlength
  exact hshort cut (by omega)

theorem u8_sequential : u8.Sequential :=
  u8_exact.sequential (n := 1) (fun _ _ => rfl) fun input h => by
    obtain rfl := List.length_eq_zero_iff.1 (Nat.lt_one_iff.1 h)
    rfl

theorem u16_sequential : u16.Sequential :=
  u16_exact.sequential (n := 2) (fun _ _ => rfl) fun input h => by
    match input, h with
    | [], _ | [_], _ => rfl

theorem u32_sequential : u32.Sequential :=
  u32_exact.sequential (n := 4) (fun _ _ => rfl) fun input h => by
    match input, h with
    | [], _ | [_], _ | [_, _], _ | [_, _, _], _ => rfl

theorem u64_sequential : u64.Sequential :=
  .bind u32_sequential fun _ => .bind u32_sequential fun _ => .pure _

theorem bytes_sequential (n : Nat) : (bytes n).Sequential :=
  (bytes_exact n).sequential (fun _ h => h) fun input h => by
    simp only [bytes, splitExact?_eq, if_neg (Nat.not_le.2 h)]

/-! ## Lists -/

theorem many_sequential {item : Decoder α} (h : item.Sequential) (n : Nat) :
    (many n item).Sequential := by
  suffices hgo : ∀ done, (many.go item n done).Sequential from hgo []
  induction n with
  | zero => exact fun done => .pure _
  | succ n ih => exact fun done => .bind h fun x => ih (x :: done)

theorem counted_sequential {item : Decoder α} (h : item.Sequential) : (counted item).Sequential :=
  .bind u16_sequential fun n => many_sequential h n.toNat

end Decoder

open Decoder

/-! ## Constants -/

theorem decodePair_sequential (make : UInt16 → UInt16 → Constant) :
    (Constant.decodePair make).Sequential :=
  .bind u16_sequential fun _ => .bind u16_sequential fun _ => .pure _

theorem decodeBody_sequential (tag : UInt8) : (Constant.decodeBody tag).Sequential := by
  unfold Constant.decodeBody
  split
  case h_1 => exact .bind u16_sequential fun n => .map _ (bytes_sequential _)
  case h_2 | h_3 => exact .map _ u32_sequential
  case h_4 | h_5 => exact .map _ u64_sequential
  case h_8 | h_9 | h_10 | h_11 | h_14 | h_15 => exact decodePair_sequential _
  case h_12 => exact .bind u8_sequential fun _ => .map _ u16_sequential
  case h_18 => exact .fault _
  all_goals exact .map _ u16_sequential

theorem constant_sequential : Constant.decode.Sequential :=
  .bind u8_sequential decodeBody_sequential

theorem decodeSlots_sequential (n : Nat) (slots : Array Constant) :
    (ConstantPool.decodeSlots n slots).Sequential := by
  fun_induction ConstantPool.decodeSlots n slots with
  | case1 slots => exact .pure _
  | case2 slots => exact .bind constant_sequential fun _ => .pure _
  | case3 n slots ihWide ihNarrow =>
    exact .bind constant_sequential fun k => .ite (ihWide k) (ihNarrow k)

theorem decodePool_sequential : ConstantPool.decode.Sequential :=
  .bind u16_sequential fun _ => .bind (decodeSlots_sequential _ _) fun _ => .pure _

/-! ## Class files -/

theorem attribute_sequential : Attribute.decode.Sequential :=
  .bind u16_sequential fun _ => .bind u32_sequential fun _ => .bind (bytes_sequential _) fun _ =>
    .pure _

theorem member_sequential : Member.decode.Sequential :=
  .bind u16_sequential fun _ => .bind u16_sequential fun _ => .bind u16_sequential fun _ =>
    .bind (counted_sequential attribute_sequential) fun _ => .pure _

theorem decodeFront_sequential : decodeFront.Sequential :=
  .bind u32_sequential fun _ => .ite (.fault_bind _ _) <|
    .bind u16_sequential fun _ => .bind u16_sequential fun _ => .bind decodePool_sequential fun _ =>
      .bind u16_sequential fun _ => .bind u16_sequential fun _ => .bind u16_sequential fun _ =>
        .bind (counted_sequential u16_sequential) fun _ =>
          .bind (counted_sequential member_sequential) fun _ =>
            .bind (counted_sequential member_sequential) fun _ =>
              .bind (counted_sequential attribute_sequential) fun _ => .pure _

variable {bytes : List UInt8} {c : ClassFile}

/-- The bytes of a class file are what reading takes off their front, and nothing is left. -/
theorem takes_of_decode (h : decode bytes = .ok c) : decodeFront.Takes c bytes := by
  obtain ⟨⟨c', rest⟩, hfront, h⟩ := except_bind_eq_ok_iff.1 h
  cases rest with
  | nil =>
    cases h
    obtain ⟨taken, rfl, htaken⟩ := decodeFront_sequential _ _ _ hfront
    rwa [List.append_nil]
  | cons b rest => cases h

/-- Of the bytes of a class file, fewer end unexpectedly and more leave the others over. -/
theorem decode_cut_or_padded (h : decode bytes = .ok c) :
    (∀ cut, cut <+: bytes → cut ≠ bytes → decode cut = .error .unexpectedEnd) ∧
      ∀ padding, padding ≠ [] →
        decode (bytes ++ padding) = .error (.trailingBytes padding.length) := by
  have htakes := takes_of_decode h
  constructor
  · rintro cut ⟨missing, rfl⟩ hcut
    have hshort := htakes.short cut missing rfl (by simpa using hcut)
    rw [decode, hshort]
    rfl
  · intro padding hpadding
    rw [decode, htakes.whole padding]
    cases padding with
    | nil => exact absurd rfl hpadding
    | cons b padding => rfl

/-- A long in the last slot that was announced: nothing tells the reader where it ends. -/
theorem decode_cut_or_padded_lastWide :
    decode (encodeAnnouncing 2 lastWide) = .ok lastWide ∧
      (∀ cut, cut <+: encodeAnnouncing 2 lastWide → cut ≠ encodeAnnouncing 2 lastWide →
        decode cut = .error .unexpectedEnd) ∧
      ∀ padding, padding ≠ [] → decode (encodeAnnouncing 2 lastWide ++ padding) =
        .error (.trailingBytes padding.length) :=
  ⟨rfl, decode_cut_or_padded rfl⟩

end JarRefit.ClassFile
