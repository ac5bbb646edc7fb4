import Mathlib.Data.Nat.Basic
import JarRefit.Text.Digit

/-!
# Numbers in base sixteen read back

The digits of a number stand for it.
-/
namespace JarRefit.Text

theorem digit?_digitChar {d : Nat} (h : d < 16) : digit? 16 (Nat.digitChar d) = some d := by
  revert d
  decide

theorem number?_append_singleton (base : Nat) (digits : List Char) (c : Char) :
    number? base (digits ++ [c]) =
      (number? base digits).bind fun n => (digit? base c).map (n * base + ·) := by
  simp [number?, List.foldlM_append]

theorem number?_toDigits (n : Nat) : number? 16 (Nat.toDigits 16 n) = some n := by
  induction n using Nat.strongRecOn with
  | ind n ih =>
    rw [Nat.toDigits_eq_if (by decide)]
    split
    · simp [number?, digit?_digitChar ‹_›]
    · have hlower := ih (n / 16) (by omega)
      rw [number?_append_singleton, hlower, digit?_digitChar (Nat.mod_lt _ (by decide))]
      simp only [Option.bind_some, Option.map_some, Option.some.injEq]
      omega

/-- No sign stands in front of the digits of a number. -/
theorem toDigits_ne_cons_plus (n : Nat) (digits : List Char) :
    Nat.toDigits 16 n ≠ '+' :: digits := by
  intro h
  have hread := number?_toDigits n
  rw [h, number?, List.foldlM_cons, show digit? 16 '+' = none by decide] at hread
  cases hread

end JarRefit.Text
