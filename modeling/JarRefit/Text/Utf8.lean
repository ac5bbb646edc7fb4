/-!
# UTF-8

Text as bytes and bytes as text. `decode?` accepts exactly what `encode` writes; `decodeLossy`
reads any bytes and puts the replacement character where no character can be read.
-/
namespace JarRefit.Utf8

/-- The UTF-8 bytes of a text. -/
def encode (s : String) : List UInt8 :=
  s.toByteArray.data.toList

/-- The text that the bytes encode, if they are valid UTF-8. -/
def decode? (bytes : List UInt8) : Option String :=
  String.fromUTF8? ⟨bytes.toArray⟩

theorem length_encode (s : String) : (encode s).length = s.utf8ByteSize := rfl

theorem decode?_encode (s : String) : decode? (encode s) = some s := by
  have h : (⟨(encode s).toArray⟩ : ByteArray) = s.toByteArray := by simp [encode]
  unfold decode?
  rw [h, String.fromUTF8?, dif_pos s.isValidUTF8]
  rfl

theorem eq_encode_of_decode? {bytes : List UInt8} {s : String} (h : decode? bytes = some s) :
    bytes = encode s := by
  unfold decode? String.fromUTF8? at h
  split at h
  · cases h; simp [encode, String.fromUTF8]
  · cases h

/-- Reading accepts exactly what writing produces. -/
theorem decode?_eq_some_iff {bytes : List UInt8} {s : String} :
    decode? bytes = some s ↔ bytes = encode s :=
  ⟨eq_encode_of_decode?, fun h => h ▸ decode?_encode s⟩

theorem encode_injective {s t : String} (h : encode s = encode t) : s = t := by
  have := decode?_encode s
  rw [h, decode?_encode] at this
  exact (Option.some.inj this).symm

/-- What a first byte asks of the bytes after it: the range of the second byte, and how many
further continuation bytes follow that one. -/
def follow? (lead : UInt8) : Option (UInt8 × UInt8 × Nat) :=
  if 0xC2 ≤ lead && lead ≤ 0xDF then some (0x80, 0xBF, 0)
  else if lead == 0xE0 then some (0xA0, 0xBF, 1)
  else if lead == 0xED then some (0x80, 0x9F, 1)
  else if 0xE1 ≤ lead && lead ≤ 0xEF then some (0x80, 0xBF, 1)
  else if lead == 0xF0 then some (0x90, 0xBF, 2)
  else if 0xF1 ≤ lead && lead ≤ 0xF3 then some (0x80, 0xBF, 2)
  else if lead == 0xF4 then some (0x80, 0x8F, 2)
  else none

/-- How many of the bytes continue a character whose next byte lies in the given range and which
takes `more` bytes after that one; the flag tells whether it is complete. -/
def continuation (low high : UInt8) : Nat → List UInt8 → Nat × Bool
  | _, [] => (0, false)
  | more, b :: rest =>
    if low ≤ b && b ≤ high then
      match more with
      | 0 => (1, true)
      | more + 1 =>
        let (taken, complete) := continuation 0x80 0xBF more rest
        (taken + 1, complete)
    else (0, false)

/-- The text read from the bytes, where each longest piece that starts a character but does not
complete it, and each byte that starts none, becomes one replacement character. -/
def decodeLossy (bytes : List UInt8) : String :=
  String.ofList (go bytes)
where
  go : List UInt8 → List Char
    | [] => []
    | b :: rest =>
      if b < 0x80 then Char.ofNat b.toNat :: go rest
      else
        match follow? b with
        | none => '\uFFFD' :: go rest
        | some (low, high, more) =>
          let (taken, complete) := continuation low high more rest
          let char :=
            if complete then
              (decode? (b :: rest.take taken)).elim '\uFFFD' (·.toList.headD '\uFFFD')
            else '\uFFFD'
          char :: go (rest.drop taken)
  termination_by bytes => bytes.length
  decreasing_by all_goals simp; try omega

end JarRefit.Utf8
