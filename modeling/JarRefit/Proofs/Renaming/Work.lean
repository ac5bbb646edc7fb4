import Mathlib.Data.List.Forall2
import JarRefit.Proofs.Renaming.Interning
import JarRefit.Renaming.Desk

/-!
# Work that extends the interner

Work at a desk appends constants at most. This carries over from the steps of the work to the whole
of it, and from the work on an item to the work on every item of a list.

## Main definitions

* `Interner.Extends`: a sound interner whose pool has grown.
* `Work.Extending`: work that only extends the interner of its desk.
* `Work.Chain`: the runs of the same work on one item after another.
-/
namespace JarRefit

/-! ## Related lists -/

theorem forall₂_trans {α β γ : Type} {R : α → β → Prop} {S : β → γ → Prop} {T : α → γ → Prop}
    (htrans : ∀ a b c, R a b → S b c → T a c) {as : List α} {bs : List β} {cs : List γ}
    (h : List.Forall₂ R as bs) (h' : List.Forall₂ S bs cs) : List.Forall₂ T as cs := by
  induction h generalizing cs with
  | nil =>
    cases h'
    exact .nil
  | cons hab _ ih =>
    obtain _ | ⟨hbc, hrest⟩ := h'
    exact .cons (htrans _ _ _ hab hbc) (ih hrest)

/-- Items that are related to themselves as soon as something is related to them. -/
theorem forall₂_right {α : Type} {R : α → α → Prop} {xs ys : List α} (h : List.Forall₂ R xs ys)
    (hR : ∀ x y, R x y → R y y) : List.Forall₂ R ys ys := by
  induction h with
  | nil => exact .nil
  | cons hxy _ ih => exact .cons (hR _ _ hxy) ih

theorem exists_getElem?_of_forall₂ {α β : Type} {R : α → β → Prop} {xs : List α} {ys : List β}
    (h : List.Forall₂ R xs ys) {i : Nat} {x : α} (hx : xs[i]? = some x) :
    ∃ y, ys[i]? = some y ∧ R x y := by
  induction h generalizing i with
  | nil => simp at hx
  | cons hxy _ ih =>
    cases i with
    | zero => simp_all
    | succ i => exact ih (by simpa using hx)

/-- A quantity that related items share is the same for related lists. -/
theorem map_eq_map_of_forall₂ {α γ : Type} {R : α → α → Prop} {quantity : α → γ} {xs ys : List α}
    (h : List.Forall₂ R xs ys) (hsame : ∀ x y, R x y → quantity y = quantity x) :
    ys.map quantity = xs.map quantity := by
  induction h with
  | nil => rfl
  | cons hxy _ ih => rw [List.map_cons, List.map_cons, ih, hsame _ _ hxy]

namespace Renaming

open ClassFile

/-! ## Interners that grow -/

/-- The new interner is sound, and its pool is the old one with shared constants appended, as many
and as long as fit. -/
structure Interner.Extends (old new : Interner) : Prop where
  sound : new.Sound
  grows : old.pool.Grows new.pool
  withinLimits : old.pool.WithinLimits → new.pool.WithinLimits

theorem Interner.Extends.refl {interner : Interner} (h : interner.Sound) :
    interner.Extends interner :=
  ⟨h, .refl _, id⟩

theorem Interner.Extends.trans {old new later : Interner} (h : old.Extends new)
    (g : new.Extends later) : old.Extends later :=
  ⟨g.sound, h.grows.trans g.grows, g.withinLimits ∘ h.withinLimits⟩

namespace Work

variable {α β γ δ : Type}

/-- Work that extends every sound interner. -/
def Extending (work : Work α γ) : Prop :=
  ∀ ⦃desk : Desk α⦄ ⦃c : γ⦄ ⦃desk' : Desk α⦄, desk.interner.Sound → work desk = .ok c desk' →
    desk.interner.Extends desk'.interner

namespace Extending

theorem pure (c : γ) : Extending (Pure.pure c : Work α γ) := by
  intro desk _ desk' hsound h
  obtain ⟨-, rfl⟩ := estate_pure_eq_ok_iff.1 h
  exact .refl hsound

theorem bind {work : Work α γ} {next : γ → Work α δ} (h : work.Extending)
    (hnext : ∀ c, (next c).Extending) : (work >>= next).Extending := by
  intro desk d desk' hsound hrun
  obtain ⟨c, middle, hwork, hrun⟩ := estate_bind_eq_ok_iff.1 hrun
  have hmiddle := h hsound hwork
  exact hmiddle.trans (hnext c hmiddle.sound hrun)

theorem ite {p : Prop} [Decidable p] {work other : Work α γ} (h : work.Extending)
    (hother : other.Extending) : (if p then work else other).Extending := by
  split
  · exact h
  · exact hother

theorem item : (Work.item : Work α α).Extending := by
  intro desk _ desk' hsound h
  cases h
  exact .refl hsound

theorem change (f : α → α) : (Work.change f).Extending := by
  intro desk _ desk' hsound h
  cases h
  exact .refl hsound

end Extending

theorem text_eq_ok_iff {s : String} {desk desk' : Desk α} {i : UInt16} :
    Work.text s desk = .ok i desk' ↔
      ∃ interner, Interner.text s desk.interner = .ok i interner ∧
        desk' = { desk with interner } := by
  unfold Work.text
  cases h : Interner.text s desk.interner <;> grind

theorem Extending.text (s : String) : (Work.text s : Work α UInt16).Extending := by
  intro desk i desk' hsound h
  obtain ⟨interner, hi, rfl⟩ := text_eq_ok_iff.1 h
  obtain ⟨hsound', hgrows, -⟩ := hsound.text hi
  exact ⟨hsound', hgrows, fun h => Interner.withinLimits_text h hi⟩

theorem on_eq_ok_iff {part : β → α} {replace : α → β → β} {work : Work α γ} {desk desk' : Desk β}
    {c : γ} : Work.on part replace work desk = .ok c desk' ↔
      ∃ d : Desk α, work ⟨desk.interner, part desk.item⟩ = .ok c d ∧
        desk' = ⟨d.interner, replace d.item desk.item⟩ := by
  unfold Work.on
  cases hwork : work ⟨desk.interner, part desk.item⟩ with
  | error e d => simp
  | ok a d => simp [and_assoc, eq_comm]

theorem Extending.on {work : Work α γ} (h : work.Extending) (part : β → α)
    (replace : α → β → β) : (Work.on part replace work).Extending := by
  intro desk c desk' hsound hrun
  obtain ⟨d, hwork, rfl⟩ := on_eq_ok_iff.1 hrun
  exact h hsound hwork

/-! ## New texts -/

/-- Points the item to a new text, if there is one. -/
def repoint (new? : Option String) (f : UInt16 → α → α) : Work α Unit :=
  match new? with
  | some new => do
    let index ← Work.text new
    Work.change (f index)
  | none => Pure.pure ()

theorem Extending.repoint (new? : Option String) (f : UInt16 → α → α) :
    (Work.repoint new? f).Extending := by
  cases new? with
  | none => exact .pure _
  | some new => exact .bind (.text new) fun index => .change (f index)

/-- The item points to the new text, or still to the old one if there is no other. -/
theorem repoint_eq_ok {new? : Option String} {f : UInt16 → α → α} {desk desk' : Desk α}
    (hsound : desk.interner.Sound) {i : UInt16} {old : String} (hitem : f i desk.item = desk.item)
    (hold : desk.interner.pool.text i = .ok old) (h : Work.repoint new? f desk = .ok () desk') :
    ∃ j, desk'.item = f j desk.item ∧ desk'.interner.pool.text j = .ok (new?.getD old) := by
  cases new? with
  | none =>
    cases h
    exact ⟨i, hitem.symm, hold⟩
  | some new =>
    obtain ⟨j, middle, htext, hchange⟩ := estate_bind_eq_ok_iff.1 h
    cases hchange
    obtain ⟨interner, hj, rfl⟩ := text_eq_ok_iff.1 htext
    exact ⟨j, rfl, (hsound.text hj).2.2⟩

/-- What no index is part of stays as it is. -/
theorem repoint_keeps {new? : Option String} {f : UInt16 → α → α} {quantity : α → β}
    (hf : ∀ i a, quantity (f i a) = quantity a) {desk desk' : Desk α}
    (h : Work.repoint new? f desk = .ok () desk') : quantity desk'.item = quantity desk.item := by
  cases new? with
  | none =>
    cases h
    rfl
  | some new =>
    obtain ⟨i, _, htext, hchange⟩ := estate_bind_eq_ok_iff.1 h
    obtain ⟨interner, -, rfl⟩ := text_eq_ok_iff.1 htext
    cases hchange
    exact hf i desk.item

/-! ## Lists -/

/-- The work done on the items of a list, which gives the other list. Each run begins with the
interner that the one before left. -/
inductive Chain (work : Work α Unit) : Interner → List α → Interner → List α → Prop
  | nil (interner : Interner) : Chain work interner [] interner []
  | cons {start last : Interner} {x : α} {middle : Desk α} {xs ys : List α} :
      work ⟨start, x⟩ = .ok () middle → Chain work middle.interner xs last ys →
      Chain work start (x :: xs) last (middle.item :: ys)

variable {work : Work α Unit}

theorem go_eq_ok_iff {start : Interner} {done xs : List α} {desk : Desk (List α)} :
    each.go work start done xs = .ok () desk ↔
      ∃ ys, desk.item = done.reverse ++ ys ∧ Chain work start xs desk.interner ys := by
  induction xs generalizing start done with
  | nil =>
    constructor
    · intro h
      cases h
      exact ⟨[], by simp, .nil _⟩
    · obtain ⟨interner, item⟩ := desk
      rintro ⟨ys, hitem, hchain⟩
      cases hchain
      simp_all [each.go]
  | cons x xs ih =>
    rw [each.go]
    cases hx : work ⟨start, x⟩ with
    | error e middle =>
      simp only [reduceCtorEq, false_iff]
      rintro ⟨ys, -, hchain⟩
      cases hchain
      simp_all
    | ok c middle =>
      dsimp only
      rw [ih]
      constructor
      · rintro ⟨ys, hys, hchain⟩
        exact ⟨middle.item :: ys, by simpa using hys, .cons hx hchain⟩
      · rintro ⟨ys, hys, hchain⟩
        obtain _ | ⟨hx', hrest⟩ := hchain
        cases hx.symm.trans hx'
        exact ⟨_, by simpa using hys, hrest⟩

theorem each_eq_ok_iff {desk desk' : Desk (List α)} : Work.each work desk = .ok () desk' ↔
    Chain work desk.interner desk.item desk'.interner desk'.item := by
  simp [Work.each, go_eq_ok_iff]

theorem Chain.extends {start last : Interner} {xs ys : List α} (h : Chain work start xs last ys)
    (hwork : work.Extending) (hsound : start.Sound) : start.Extends last := by
  induction h with
  | nil => exact .refl hsound
  | cons hx _ ih =>
    have hmiddle := hwork hsound hx
    exact hmiddle.trans (ih hmiddle.sound)

/-- What the work makes of an item, it makes of each item of the list. -/
theorem Chain.forall₂ {original : ConstantPool} {R : ConstantPool → α → α → Prop}
    (hmono : ∀ {old new x y}, old.Keeps new → R old x y → R new x y) (hwork : work.Extending)
    (hR : ∀ desk desk', desk.interner.Sound → original.Keeps desk.interner.pool →
      work desk = .ok () desk' → R desk'.interner.pool desk.item desk'.item)
    {start last : Interner} {xs ys : List α} (h : Chain work start xs last ys)
    (hsound : start.Sound) (hkeeps : original.Keeps start.pool) :
    List.Forall₂ (R last.pool) xs ys := by
  induction h with
  | nil => exact .nil
  | cons hx hrest ih =>
    have hmiddle := hwork hsound hx
    refine .cons ?_ (ih hmiddle.sound (hkeeps.trans hmiddle.grows.keeps))
    exact hmono (hrest.extends hwork hmiddle.sound).grows.keeps (hR _ _ hsound hkeeps hx)

theorem Extending.each (h : work.Extending) : (Work.each work).Extending :=
  fun _ _ _ hsound hrun => (each_eq_ok_iff.1 hrun).extends h hsound

end Work

end Renaming

end JarRefit
