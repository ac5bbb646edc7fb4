import Mathlib.Data.List.Induction
import JarRefit.Proofs.Access.Widening

/-!
# Changes in turn

Changes that are applied one after another amount to one change, as merged ones do. Both have the
widest visibility that is asked for; the final flag goes by the last toggle in the one case and by
the strongest in the other.

## Main definitions

* `Change.inTurn`: the change that changes applied in turn amount to.
* `Change.merged`: the change that the same changes amount to once they are merged.
* `Change.lastToggle`: the last toggle that is not to leave the flag.
-/
namespace JarRefit.Access

namespace Change

variable {f : Flags}

/-- One change in place of two that are applied in turn. -/
def andThen (c next : Change) : Change :=
  ⟨max c.visibility next.visibility,
    if next.toggle = .unchanged then c.toggle else next.toggle⟩

theorem bit_apply_of_lt (c : Change) {i : Nat} (hi : i < 3) :
    (c.apply f).bit i = (f.withVisibility (max f.visibility c.visibility)).bit i := by
  rw [apply, FinalToggle.bit_apply_of_ne _ (by omega), Visibility.widen_eq_max]

theorem apply_apply (c next : Change) (f : Flags) :
    next.apply (c.apply f) = (c.andThen next).apply f := by
  refine Flags.ext_bit fun i _ => ?_
  by_cases hi : i < 3
  · rw [bit_apply_of_lt _ hi, bit_apply_of_lt _ hi, visibility_apply, max_assoc]
    simp [Flags.bit_withVisibility, hi, andThen]
  · by_cases hfour : i = 4
    · subst hfour
      simp only [apply, andThen, FinalToggle.bit_apply_four, Flags.bit_withVisibility]
      cases next.toggle <;> simp
    · simp [apply, FinalToggle.bit_apply_of_ne _ hfour, Flags.bit_withVisibility, hi]

/-- A change that is applied again does nothing. -/
theorem apply_self (c : Change) (f : Flags) : c.apply (c.apply f) = c.apply f := by
  have hagain : c.andThen c = c := by simp [andThen]
  rw [apply_apply, hagain]

/-- The change that changes applied in turn amount to, if there is one among them. -/
def inTurn : List Change → Option Change
  | [] => none
  | c :: cs => some (cs.foldl andThen c)

/-- The change that changes amount to once they are merged, if there is one among them. -/
def merged : List Change → Option Change
  | [] => none
  | c :: cs => some (cs.foldl merge c)

theorem foldl_apply (cs : List Change) (f : Flags) :
    cs.foldl (fun f c => c.apply f) f = (inTurn cs).elim f (·.apply f) := by
  cases cs with
  | nil => rfl
  | cons c cs =>
    change cs.foldl (fun f c => c.apply f) (c.apply f) = (cs.foldl andThen c).apply f
    induction cs generalizing c with
    | nil => rfl
    | cons next cs ih =>
      rw [List.foldl_cons, apply_apply, ih]
      rfl

theorem standsFor_merged (cs : List Change) : StandsFor {c | c ∈ cs} (merged cs) := by
  cases cs with
  | nil => simp [merged, StandsFor]
  | cons c cs =>
    suffices ∀ asked c, Merged asked c → Merged (asked ∪ {c | c ∈ cs}) (cs.foldl merge c) by
      simpa [StandsFor, merged, Set.ofPred_or] using this {c} c (.singleton c)
    induction cs with
    | nil => simp
    | cons next cs ih =>
      intro asked c hc
      have hsplit : {c | c ∈ next :: cs} = {next} ∪ {c | c ∈ cs} := by
        ext
        simp
      rw [hsplit, ← Set.union_assoc]
      exact ih _ _ (hc.union (.singleton next))

/-! ## Telling changes apart -/

/-- What changes make of all flags tells them apart, and a change from no change. -/
theorem elim_apply_inj {c? c'? : Option Change} :
    (∀ f : Flags, c?.elim f (·.apply f) = c'?.elim f (·.apply f)) ↔ c? = c'? := by
  refine ⟨fun h => ?_, fun h _ => h ▸ rfl⟩
  -- Two visibility bits never survive a change; a private class shows what visibility it asks for.
  have hboth := h ⟨0x3⟩
  have hprivate := h ⟨0x2⟩
  have hfinal := h ⟨0x12⟩
  revert hboth hprivate hfinal
  rcases c? with _ | ⟨v, t⟩ <;> rcases c'? with _ | ⟨v', t'⟩
  · simp
  · cases v' <;> cases t' <;> decide
  · cases v <;> cases t <;> decide
  · cases v <;> cases t <;> cases v' <;> cases t' <;> decide

/-! ## The last toggle and the strongest one -/

/-- The last toggle that is not to leave the flag. -/
def lastToggle (cs : List Change) : FinalToggle :=
  ((cs.map toggle).filter (· ≠ .unchanged)).getLastD .unchanged

theorem lastToggle_append_singleton (cs : List Change) (c : Change) :
    lastToggle (cs ++ [c]) = if c.toggle = .unchanged then lastToggle cs else c.toggle := by
  split <;> simp [lastToggle, *]

/-- The last toggle is one of the toggles, or all of them leave the flag. -/
theorem lastToggle_cases (cs : List Change) :
    (lastToggle cs = .unchanged ∧ ∀ c ∈ cs, c.toggle = .unchanged) ∨
      (lastToggle cs ≠ .unchanged ∧ ∃ c ∈ cs, c.toggle = lastToggle cs) := by
  induction cs using List.reverseRecOn with
  | nil => simp [lastToggle]
  | append_singleton cs c ih =>
    rw [lastToggle_append_singleton]
    split
    · rcases ih with ⟨hlast, hall⟩ | ⟨hlast, d, hd, hsame⟩
      · exact .inl ⟨hlast, by simpa [or_imp, forall_and] using ⟨hall, ‹_›⟩⟩
      · exact .inr ⟨hlast, d, by simp [hd], hsame⟩
    · exact .inr ⟨‹_›, c, by simp, rfl⟩

theorem toggle_foldl_andThen (c : Change) (cs : List Change) :
    (cs.foldl andThen c).toggle = lastToggle (c :: cs) := by
  induction cs using List.reverseRecOn with
  | nil => cases htoggle : c.toggle <;> simp [lastToggle, htoggle]
  | append_singleton cs d ih =>
    rw [List.foldl_append, ← List.cons_append, lastToggle_append_singleton, ← ih]
    rfl

theorem visibility_foldl_andThen (c : Change) (cs : List Change) :
    (cs.foldl andThen c).visibility = (cs.foldl merge c).visibility := by
  suffices ∀ c' : Change, c'.visibility = c.visibility →
      (cs.foldl andThen c').visibility = (cs.foldl merge c).visibility from this c rfl
  induction cs generalizing c with
  | nil => exact fun _ h => h
  | cons next cs ih =>
    exact fun c' h => ih (c.merge next) (c'.andThen next) (by simp [andThen, merge, h])

/-- Changes in turn amount to the merged change unless the final flag is taken away and the last
toggle sets it again. -/
theorem inTurn_eq_merged_iff (cs : List Change) : inTurn cs = merged cs ↔
    ((∃ c ∈ cs, c.toggle = .forceNonFinal) → lastToggle cs = .forceNonFinal) := by
  cases cs with
  | nil => simp [inTurn, merged]
  | cons c cs =>
    have hmerged : Merged {d | d ∈ c :: cs} (cs.foldl merge c) := standsFor_merged (c :: cs)
    have hlast := toggle_foldl_andThen c cs
    have hsame : inTurn (c :: cs) = merged (c :: cs) ↔
        lastToggle (c :: cs) = (cs.foldl merge c).toggle := by
      rw [← hlast, inTurn, merged, Option.some.injEq]
      refine ⟨congrArg toggle, fun htoggle => ?_⟩
      have hvisibility := visibility_foldl_andThen c cs
      revert hvisibility htoggle
      cases cs.foldl andThen c
      cases cs.foldl merge c
      simp +contextual
    rw [hsame]
    obtain ⟨⟨d, hd, hstrongest⟩, hmax⟩ := hmerged.toggle
    have hle : ∀ e ∈ c :: cs, e.toggle ≤ (cs.foldl merge c).toggle := fun e he => hmax ⟨e, he, rfl⟩
    cases htoggle : (cs.foldl merge c).toggle with
    | forceNonFinal =>
      exact ⟨fun h _ => h, fun h => h ⟨d, hd, hstrongest.trans htoggle⟩⟩
    | forceFinal | unchanged =>
      refine iff_of_true ?_ fun ⟨e, he, hnon⟩ =>
        absurd (hle e he) (by rw [hnon, htoggle]; decide)
      rcases lastToggle_cases (c :: cs) with ⟨hlast, hall⟩ | ⟨hlast, e, he, hsame⟩
      · rw [hlast, ← hall d hd, hstrongest, htoggle]
      · have hbound := hle e he
        rw [hsame, htoggle] at hbound
        revert hbound hlast
        cases lastToggle (c :: cs) <;> decide

end Change

end JarRefit.Access
