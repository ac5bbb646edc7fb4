import Mathlib.Order.Bounds.Basic
import JarRefit.Access.Change
import JarRefit.Proofs.Access.Bits

/-!
# What a set of changes asks for

Merging changes takes the greatest visibility and the strongest final toggle. So what several
changes make of flags, once they are merged, depends on which changes there are, and neither on
their order nor on how often one of them stands there.

## Main definitions

* `Merged`: the one change that stands for a set of changes.
* `Widened`: what a set of changes makes of flags.
* `StandsFor`: a change for a set of changes, or none for the empty set.
-/
namespace JarRefit.Access

/-! ## Orders -/

theorem Visibility.rank_injective : Function.Injective Visibility.rank := by
  intro a b h
  cases a <;> cases b <;> first | rfl | cases h

instance : LinearOrder Visibility where
  le_refl a := Nat.le_refl a.rank
  le_trans _ _ _ := Nat.le_trans
  lt_iff_le_not_ge a b := Nat.lt_iff_le_and_not_ge (m := a.rank) (n := b.rank)
  le_antisymm _ _ h g := Visibility.rank_injective (Nat.le_antisymm h g)
  le_total a b := Nat.le_total a.rank b.rank
  toDecidableLE := inferInstance
  compare_eq_compareOfLessAndEq a b := by cases a <;> cases b <;> decide

/-- The strength of a toggle: leaving the flag is weaker than setting it, and that than taking it
away. -/
def FinalToggle.strength : FinalToggle → Nat
  | .unchanged => 0
  | .forceFinal => 1
  | .forceNonFinal => 2

theorem FinalToggle.strength_injective : Function.Injective FinalToggle.strength := by
  intro a b h
  cases a <;> cases b <;> first | rfl | cases h

instance : LinearOrder FinalToggle := .lift' FinalToggle.strength FinalToggle.strength_injective

theorem FinalToggle.merge_eq_max (a b : FinalToggle) : a.merge b = max a b := by
  cases a <;> cases b <;> decide

/-! ## Merged changes -/

/-- The change has the greatest visibility and the strongest toggle of the set. -/
structure Merged (asked : Set Change) (c : Change) : Prop where
  visibility : IsGreatest (Change.visibility '' asked) c.visibility
  toggle : IsGreatest (Change.toggle '' asked) c.toggle

theorem Merged.singleton (c : Change) : Merged {c} c := by
  constructor <;> simp

theorem Merged.union {asked asked' : Set Change} {c c' : Change} (h : Merged asked c)
    (h' : Merged asked' c') : Merged (asked ∪ asked') (c.merge c') where
  visibility := by
    rw [Set.image_union]
    exact h.visibility.union h'.visibility
  toggle := by
    rw [Set.image_union, Change.merge, FinalToggle.merge_eq_max]
    exact h.toggle.union h'.toggle

theorem Merged.nonempty {asked : Set Change} {c : Change} (h : Merged asked c) : asked.Nonempty :=
  Set.image_nonempty.1 h.visibility.nonempty

/-! ## Flags after a change -/

variable {f new new' : Flags} {asked : Set Change} {c : Change}

/-- The flags that a change can touch. -/
def Flags.changeable : Flags :=
  Flags.union ⟨Flags.visibilityMask⟩ .finalBit

theorem FinalToggle.bit_apply_of_ne (t : FinalToggle) {i : Nat} (hi : i ≠ 4) :
    (t.apply f).bit i = f.bit i := by
  cases t <;> simp [FinalToggle.apply, Flags.bit_finalBit, hi]

theorem FinalToggle.bit_apply_four (t : FinalToggle) : (t.apply f).bit 4 =
    match t with
    | .unchanged => f.bit 4
    | .forceFinal => true
    | .forceNonFinal => false := by
  cases t <;> simp [FinalToggle.apply, Flags.bit_finalBit]

@[simp]
theorem FinalToggle.visibility_apply (t : FinalToggle) : (t.apply f).visibility = f.visibility :=
  Flags.visibility_congr fun _ hi => t.bit_apply_of_ne (by omega)

theorem Change.visibility_apply (c : Change) :
    (c.apply f).visibility = max f.visibility c.visibility := by
  rw [Change.apply, FinalToggle.visibility_apply, Flags.visibility_withVisibility,
    Visibility.widen_eq_max]

/-- What a set of changes makes of flags: their visibility is the greatest of the old one and those
asked for, and their final flag is gone if one change takes it away, else set if one sets it or it
was set. All other flags stay, and without any change the visibility field does so too. -/
structure Widened (asked : Set Change) (old new : Flags) : Prop where
  unasked : asked = ∅ → new = old
  visibility : IsGreatest (insert old.visibility (Change.visibility '' asked)) new.visibility
  field : asked.Nonempty → new.withVisibility new.visibility = new
  final : new.contains .finalBit = true ↔ (∀ c ∈ asked, c.toggle ≠ .forceNonFinal) ∧
    ((∃ c ∈ asked, c.toggle = .forceFinal) ∨ old.contains .finalBit = true)
  others : new.remove .changeable = old.remove .changeable

theorem Widened.refl (f : Flags) : Widened ∅ f f where
  unasked _ := rfl
  visibility := by simp
  field h := absurd h Set.not_nonempty_empty
  final := by simp
  others := rfl

/-- What a merged change makes of flags is what the changes it stands for ask for. -/
theorem Merged.widened (h : Merged asked c) (f : Flags) : Widened asked f (c.apply f) where
  unasked hnone := absurd h.nonempty (Set.not_nonempty_iff_eq_empty.2 hnone)
  visibility := by
    rw [Change.visibility_apply]
    exact h.visibility.insert _
  field _ := by
    refine Flags.ext_bit fun i _ => ?_
    rw [Change.visibility_apply, Change.apply, Visibility.widen_eq_max, Flags.bit_withVisibility]
    split
    · rw [FinalToggle.bit_apply_of_ne _ (by omega), Flags.bit_withVisibility, if_pos ‹_›]
    · rfl
  final := by
    obtain ⟨⟨d, hd, hsame⟩, hmax⟩ := h.toggle
    have hle : ∀ e ∈ asked, e.toggle ≤ c.toggle := fun e he => hmax ⟨e, he, rfl⟩
    rw [Flags.contains_finalBit, Flags.contains_finalBit, Change.apply, FinalToggle.bit_apply_four,
      Flags.bit_withVisibility]
    cases htoggle : c.toggle with
    | forceNonFinal =>
      simp only [Bool.false_eq_true, false_iff]
      exact fun hfinal => hfinal.1 d hd (hsame.trans htoggle)
    | forceFinal =>
      refine iff_of_true rfl ⟨fun e he hnon => ?_, .inl ⟨d, hd, hsame.trans htoggle⟩⟩
      have := hle e he
      rw [htoggle, hnon] at this
      exact absurd this (by decide)
    | unchanged =>
      have hnone : ∀ e ∈ asked, e.toggle = .unchanged := fun e he => by
        have := hle e he
        rw [htoggle] at this
        revert this
        cases e.toggle <;> decide
      simp +contextual [hnone]
  others := by
    refine Flags.ext_bit fun i _ => ?_
    simp only [Flags.bit_remove, Flags.changeable, Flags.bit_union, Flags.bit_visibilityMask,
      Flags.bit_finalBit, Change.apply]
    by_cases hi : i < 3
    · simp [hi]
    · by_cases hfour : i = 4
      · simp [hfour]
      · simp [FinalToggle.bit_apply_of_ne _ hfour, Flags.bit_withVisibility, hi]

/-- What a set of changes makes of flags is settled. -/
theorem Widened.unique (h : Widened asked f new) (h' : Widened asked f new') : new = new' := by
  rcases asked.eq_empty_or_nonempty with hnone | hsome
  · rw [h.unasked hnone, h'.unasked hnone]
  · have hvisibility := h.visibility.unique h'.visibility
    have hfinal : new.contains .finalBit = new'.contains .finalBit :=
      Bool.eq_iff_iff.2 (h.final.trans h'.final.symm)
    refine Flags.ext_bit fun i _ => ?_
    by_cases hi : i < 3
    · rw [← h.field hsome, ← h'.field hsome, hvisibility]
      simp [Flags.bit_withVisibility, hi]
    · by_cases hfour : i = 4
      · rw [hfour, ← Flags.contains_finalBit, ← Flags.contains_finalBit, hfinal]
      · have hothers := congrArg (Flags.bit · i) (h.others.trans h'.others.symm)
        simpa [Flags.changeable, Flags.bit_visibilityMask, Flags.bit_finalBit, hi, hfour]
          using hothers

/-! ## The empty set -/

/-- The change is merged from the set, or there is no change and the set is empty. -/
def StandsFor (asked : Set Change) : Option Change → Prop
  | none => asked = ∅
  | some c => Merged asked c

/-- A change for one more set is merged with the earlier one, if there is one. -/
theorem StandsFor.union {asked' : Set Change} {earlier? : Option Change}
    (h : StandsFor asked earlier?) (h' : Merged asked' c) :
    Merged (asked ∪ asked') (earlier?.elim c (·.merge c)) := by
  cases earlier? with
  | none =>
    obtain rfl : asked = ∅ := h
    rwa [Set.empty_union]
  | some earlier => exact Merged.union h h'

theorem StandsFor.widened {change? : Option Change} (h : StandsFor asked change?) (f : Flags) :
    Widened asked f (change?.elim f (·.apply f)) := by
  cases change? with
  | none =>
    obtain rfl : asked = ∅ := h
    exact .refl f
  | some c => exact Merged.widened h f

theorem StandsFor.unique {c? c'? : Option Change} (h : StandsFor asked c?)
    (h' : StandsFor asked c'?) : c? = c'? := by
  cases c? with
  | none =>
    obtain rfl : asked = ∅ := h
    cases c'? with
    | none => rfl
    | some c' => exact absurd (Merged.nonempty h') Set.not_nonempty_empty
  | some c =>
    cases c'? with
    | none =>
      obtain rfl : asked = ∅ := h'
      exact absurd (Merged.nonempty h) Set.not_nonempty_empty
    | some c' =>
      have hvisibility := (Merged.visibility h).unique (Merged.visibility h')
      have htoggle := (Merged.toggle h).unique (Merged.toggle h')
      cases c
      cases c'
      simp_all

end JarRefit.Access
