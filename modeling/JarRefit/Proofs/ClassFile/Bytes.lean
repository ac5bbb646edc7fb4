import Mathlib.Algebra.Group.Nat.Defs
import JarRefit.ClassFile.Bytes

/-!
# Readers and writers of bytes

A reader is exact for a writer if it accepts just what the writer produces, value by value and with
any bytes behind it. The numbers, rows of bytes and counted lists of class files are read exactly.

## Main definitions

* `Decoder.Exact`: the law that ties a reader to a writer and to the values it can read.
-/
namespace JarRefit.ClassFile

variable {α β : Type}

/-! ## Numbers out of bytes -/

/-- A number in the room that a shift makes is added. -/
theorem shiftLeft_or_eq {n : Nat} (a : Nat) {b : Nat} (hb : b < 2 ^ n) :
    a <<< n ||| b = a * 2 ^ n + b := by
  rw [← Nat.shiftLeft_add_eq_or_of_lt hb, Nat.shiftLeft_eq]

theorem toNat_join16 (a b : UInt8) :
    ((a.toUInt16 <<< 8) ||| b.toUInt16).toNat = a.toNat * 2 ^ 8 + b.toNat := by
  have ha := a.toNat_lt
  have hb := b.toNat_lt
  have hshift : (a.toUInt16 <<< 8).toNat = a.toNat <<< 8 := by
    simp [Nat.shiftLeft_eq]
    omega
  rw [UInt16.toNat_or, hshift, UInt8.toNat_toUInt16, shiftLeft_or_eq _ hb]

theorem encodeU16_join (a b : UInt8) : encodeU16 ((a.toUInt16 <<< 8) ||| b.toUInt16) = [a, b] := by
  have h := toNat_join16 a b
  have ha := a.toNat_lt
  have hb := b.toNat_lt
  simp only [encodeU16, List.cons.injEq, and_true, ← UInt8.toNat_inj, UInt16.toNat_toUInt8,
    UInt16.toNat_shiftRight, h, Nat.shiftRight_eq_div_pow]
  constructor
  · simp; omega
  · omega

theorem join_encodeU16 (n : UInt16) :
    ((n >>> 8).toUInt8.toUInt16 <<< 8) ||| n.toUInt8.toUInt16 = n := by
  have hn := n.toNat_lt
  rw [← UInt16.toNat_inj, toNat_join16]
  simp [Nat.shiftRight_eq_div_pow]
  omega

theorem toNat_shiftLeft_byte (x : UInt8) (k : UInt32) (hk : k.toNat ≤ 24) :
    (x.toUInt32 <<< k).toNat = x.toNat * 2 ^ k.toNat := by
  have hpow : 2 ^ k.toNat ≤ 2 ^ 24 := Nat.pow_le_pow_right (by decide) hk
  have hprod : x.toNat * 2 ^ k.toNat < 2 ^ 32 :=
    Nat.lt_of_lt_of_le (Nat.mul_lt_mul_of_lt_of_le x.toNat_lt hpow (by decide)) (by decide)
  have hk32 : k.toNat % 32 = k.toNat := Nat.mod_eq_of_lt (by omega)
  rw [UInt32.toNat_shiftLeft, hk32, UInt8.toNat_toUInt32, Nat.shiftLeft_eq, Nat.mod_eq_of_lt hprod]

theorem toNat_join32 (a b c d : UInt8) :
    ((a.toUInt32 <<< 24) ||| (b.toUInt32 <<< 16) ||| (c.toUInt32 <<< 8) ||| d.toUInt32).toNat =
      a.toNat * 2 ^ 24 + b.toNat * 2 ^ 16 + c.toNat * 2 ^ 8 + d.toNat := by
  have hb := b.toNat_lt
  have hc := c.toNat_lt
  have h24 := shiftLeft_or_eq (n := 24) a.toNat (b := b.toNat * 2 ^ 16) (by omega)
  have h16 := shiftLeft_or_eq (n := 16) (a.toNat * 2 ^ 8 + b.toNat) (b := c.toNat * 2 ^ 8)
    (by omega)
  have h8 := shiftLeft_or_eq (n := 8) (a.toNat * 2 ^ 16 + b.toNat * 2 ^ 8 + c.toNat) d.toNat_lt
  simp only [Nat.shiftLeft_eq] at h24 h16 h8
  simp only [UInt32.toNat_or]
  rw [toNat_shiftLeft_byte a 24 (by decide), toNat_shiftLeft_byte b 16 (by decide),
    toNat_shiftLeft_byte c 8 (by decide), UInt8.toNat_toUInt32]
  grind

theorem encodeU32_join (a b c d : UInt8) :
    encodeU32 ((a.toUInt32 <<< 24) ||| (b.toUInt32 <<< 16) ||| (c.toUInt32 <<< 8) ||| d.toUInt32) =
      [a, b, c, d] := by
  have h := toNat_join32 a b c d
  have ha := a.toNat_lt
  have hb := b.toNat_lt
  have hc := c.toNat_lt
  have hd := d.toNat_lt
  simp only [encodeU32, List.cons.injEq, and_true, ← UInt8.toNat_inj, UInt32.toNat_toUInt8,
    UInt32.toNat_shiftRight, h, Nat.shiftRight_eq_div_pow]
  refine ⟨?_, ?_, ?_, ?_⟩
  · simp; omega
  · simp; omega
  · simp; omega
  · omega

theorem join_encodeU32 (n : UInt32) :
    ((n >>> 24).toUInt8.toUInt32 <<< 24) ||| ((n >>> 16).toUInt8.toUInt32 <<< 16) |||
      ((n >>> 8).toUInt8.toUInt32 <<< 8) ||| n.toUInt8.toUInt32 = n := by
  have hn := n.toNat_lt
  rw [← UInt32.toNat_inj, toNat_join32]
  simp [Nat.shiftRight_eq_div_pow]
  omega

theorem toNat_join64 (high low : UInt32) :
    ((high.toUInt64 <<< 32) ||| low.toUInt64).toNat = high.toNat * 2 ^ 32 + low.toNat := by
  have hhigh := high.toNat_lt
  have hlow := low.toNat_lt
  have hshift : (high.toUInt64 <<< 32).toNat = high.toNat <<< 32 := by
    simp [Nat.shiftLeft_eq]
    omega
  rw [UInt64.toNat_or, hshift, UInt32.toNat_toUInt64, shiftLeft_or_eq _ hlow]

theorem encodeU64_join (high low : UInt32) :
    encodeU64 ((high.toUInt64 <<< 32) ||| low.toUInt64) = encodeU32 high ++ encodeU32 low := by
  have h := toNat_join64 high low
  have hhigh := high.toNat_lt
  have hlow := low.toNat_lt
  have highPart : ((high.toUInt64 <<< 32 ||| low.toUInt64) >>> 32).toUInt32 = high := by
    rw [← UInt32.toNat_inj, UInt64.toNat_toUInt32, UInt64.toNat_shiftRight, h,
      Nat.shiftRight_eq_div_pow]
    simp
    omega
  have lowPart : (high.toUInt64 <<< 32 ||| low.toUInt64).toUInt32 = low := by
    rw [← UInt32.toNat_inj, UInt64.toNat_toUInt32, h]
    omega
  rw [encodeU64, highPart, lowPart]

theorem join_encodeU64 (n : UInt64) :
    ((n >>> 32).toUInt32.toUInt64 <<< 32) ||| n.toUInt32.toUInt64 = n := by
  have hn := n.toNat_lt
  rw [← UInt64.toNat_inj, toNat_join64]
  simp [Nat.shiftRight_eq_div_pow]
  omega

theorem encodeU16_inj {m n : UInt16} (h : encodeU16 m = encodeU16 n) : m = n := by
  simp only [encodeU16, List.cons.injEq, and_true] at h
  rw [← join_encodeU16 m, ← join_encodeU16 n, h.1, h.2]

/-- A number that fits is not changed by being cut to 16 bits. -/
theorem toNat_toUInt16_of_le {n : Nat} (h : n ≤ 65535) : n.toUInt16.toNat = n := by
  rw [Nat.toUInt16_eq, UInt16.toNat_ofNat']
  omega

theorem toNat_toUInt32_of_lt {n : Nat} (h : n < 2 ^ 32) : n.toUInt32.toNat = n := by
  rw [Nat.toUInt32_eq, UInt32.toNat_ofNat']
  omega

namespace Decoder

/-! ## Exact readers -/

/-- The reader takes `x` off the front of the bytes just if `x` fits and `write x` stands there. -/
def Exact (read : Decoder α) (fits : α → Prop) (write : α → List UInt8) : Prop :=
  ∀ input x rest, read input = .ok (x, rest) ↔ fits x ∧ input = write x ++ rest

/-- What a sequence of two readers takes off the front of the bytes. -/
theorem bind_eq_ok_iff {read : Decoder α} {next : α → Decoder β} {input rest : List UInt8} {y : β} :
    (read >>= next) input = .ok (y, rest) ↔
      ∃ x middle, read input = .ok (x, middle) ∧ next x middle = .ok (y, rest) := by
  change (read input >>= fun p => next p.1 p.2) = _ ↔ _
  cases h : read input with
  | error e => simp [bind, Except.bind]
  | ok p => cases p; simp [bind, Except.bind, and_assoc]

theorem pure_eq_ok_iff {x y : α} {input rest : List UInt8} :
    (pure x : Decoder α) input = .ok (y, rest) ↔ x = y ∧ input = rest := by
  change Except.ok (x, input) = _ ↔ _
  simp

theorem map_eq_ok_iff {f : α → β} {read : Decoder α} {input rest : List UInt8} {y : β} :
    (f <$> read) input = .ok (y, rest) ↔ ∃ x, read input = .ok (x, rest) ∧ f x = y := by
  change (read input >>= fun p => Except.ok (f p.1, p.2)) = _ ↔ _
  cases h : read input with
  | error e => simp [bind, Except.bind]
  | ok p => cases p; simp [bind, Except.bind]; grind

/-- After an exact reader the sequence goes on behind the bytes of its value. -/
theorem Exact.bind_iff {read : Decoder α} {fits : α → Prop} {write : α → List UInt8}
    (exact : Exact read fits write) {next : α → Decoder β} {input rest : List UInt8} {y : β} :
    (read >>= next) input = .ok (y, rest) ↔
      ∃ x middle, fits x ∧ input = write x ++ middle ∧ next x middle = .ok (y, rest) := by
  simp only [bind_eq_ok_iff, exact _ _ _, and_assoc]

theorem u8_exact : Exact u8 (fun _ => True) (fun b => [b]) := by
  intro input b rest
  cases input with
  | nil => simp [u8]
  | cons c cs => simp [u8]

theorem u16_exact : Exact u16 (fun _ => True) encodeU16 := by
  intro input n rest
  rw [true_and]
  constructor
  · intro h
    match input, h with
    | a :: b :: input, h =>
      simp only [u16, Except.ok.injEq, Prod.mk.injEq] at h
      obtain ⟨rfl, rfl⟩ := h
      rw [encodeU16_join]
      rfl
  · rintro rfl
    simp only [encodeU16, List.cons_append, List.nil_append, u16, join_encodeU16]

theorem u32_exact : Exact u32 (fun _ => True) encodeU32 := by
  intro input n rest
  rw [true_and]
  constructor
  · intro h
    match input, h with
    | a :: b :: c :: d :: input, h =>
      simp only [u32, Except.ok.injEq, Prod.mk.injEq] at h
      obtain ⟨rfl, rfl⟩ := h
      rw [encodeU32_join]
      rfl
  · rintro rfl
    simp only [encodeU32, List.cons_append, List.nil_append, u32, join_encodeU32]

theorem u64_exact : Exact u64 (fun _ => True) encodeU64 := by
  intro input n rest
  simp only [u64, u32_exact.bind_iff, pure_eq_ok_iff, true_and]
  constructor
  · rintro ⟨high, _, rfl, low, _, rfl, rfl, rfl⟩
    rw [encodeU64_join, List.append_assoc]
  · rintro rfl
    exact ⟨_, _, by rw [encodeU64, List.append_assoc], _, _, rfl, join_encodeU64 n, rfl⟩

theorem bytes_exact (n : Nat) : Exact (bytes n) (fun bs => bs.length = n) id := by
  intro input bs rest
  simp only [bytes, splitExact?_eq, id_eq]
  by_cases hn : n ≤ input.length
  · simp only [if_pos hn, Except.ok.injEq, Prod.mk.injEq]
    constructor
    · rintro ⟨rfl, rfl⟩
      exact ⟨List.length_take_of_le hn, (List.take_append_drop n input).symm⟩
    · rintro ⟨rfl, rfl⟩
      simp
  · simp only [if_neg hn, reduceCtorEq, false_iff]
    rintro ⟨rfl, rfl⟩
    simp at hn

/-- The loop of `many` appends to what is done. -/
theorem many_go_iff {item : Decoder α} {fits : α → Prop} {write : α → List UInt8}
    (exact : Exact item fits write) (n : Nat) (done ys : List α) (input rest : List UInt8) :
    many.go item n done input = .ok (ys, rest) ↔
      ∃ xs, ys = done.reverse ++ xs ∧ xs.length = n ∧ (∀ x ∈ xs, fits x) ∧
        input = xs.flatMap write ++ rest := by
  induction n generalizing done input with
  | zero =>
    rw [many.go, pure_eq_ok_iff]
    constructor
    · rintro ⟨rfl, rfl⟩
      exact ⟨[], by simp⟩
    · rintro ⟨xs, rfl, hlen, -, rfl⟩
      simp [List.length_eq_zero_iff.1 hlen]
  | succ n ih =>
    rw [many.go, exact.bind_iff]
    constructor
    · rintro ⟨x, _, hx, rfl, h⟩
      obtain ⟨xs, rfl, hlen, hxs, rfl⟩ := (ih _ _).1 h
      refine ⟨x :: xs, by simp, by simp [hlen], ?_, by simp⟩
      rintro y (_ | ⟨_, hy⟩)
      · exact hx
      · exact hxs y hy
    · rintro ⟨xs, rfl, hlen, hxs, rfl⟩
      match xs, hlen with
      | x :: xs, hlen =>
        refine ⟨x, xs.flatMap write ++ rest, hxs x (by simp), by simp, (ih _ _).2 ?_⟩
        exact ⟨xs, by simp, by simpa using hlen, fun y hy => hxs y (by simp [hy]), rfl⟩

theorem many_exact {item : Decoder α} {fits : α → Prop} {write : α → List UInt8}
    (exact : Exact item fits write) (n : Nat) :
    Exact (many n item) (fun xs => xs.length = n ∧ ∀ x ∈ xs, fits x) (·.flatMap write) := by
  intro input ys rest
  rw [many, many_go_iff exact]
  simp [and_assoc]

/-- A counted list is read exactly as long as its length can be written. -/
theorem counted_exact {item : Decoder α} {fits : α → Prop} {write : α → List UInt8}
    (exact : Exact item fits write) :
    Exact (counted item) (fun xs => xs.length ≤ 65535 ∧ ∀ x ∈ xs, fits x)
      (encodeCounted write) := by
  intro input xs rest
  simp only [counted, u16_exact.bind_iff, many_exact exact _ _ _ _, true_and, encodeCounted,
    List.append_assoc]
  constructor
  · rintro ⟨n, _, rfl, ⟨hlen, hxs⟩, rfl⟩
    have hn : xs.length.toUInt16 = n := by
      rw [hlen]
      exact UInt16.ofNat_toNat
    have := n.toNat_lt
    exact ⟨⟨by omega, hxs⟩, by rw [hn]⟩
  · rintro ⟨⟨hlen, hxs⟩, rfl⟩
    exact ⟨_, _, rfl, ⟨(toNat_toUInt16_of_le hlen).symm, hxs⟩, rfl⟩

end Decoder

end JarRefit.ClassFile
