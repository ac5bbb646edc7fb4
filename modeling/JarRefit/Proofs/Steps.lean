import Mathlib.Data.List.Forall2

/-!
# Steps that can fail

What it takes for a row of steps to succeed, each of which can fail, and the state that it leaves.

## Main definitions

* `stateAfter`: the state that steps leave, however they end.
* `stateAfterAll`: the state that a row of such steps leaves, where none of them ends the row.
-/
namespace JarRefit

variable {ε σ α β : Type}

theorem except_bind_eq_ok_iff {x : Except ε α} {f : α → Except ε β} {b : β} :
    (x >>= f) = .ok b ↔ ∃ a, x = .ok a ∧ f a = .ok b := by
  cases x <;> simp [bind, Except.bind]

@[simp]
theorem except_throw_ne_ok {e : ε} {a : α} : (throw e : Except ε α) ≠ .ok a := by
  simp [throw, throwThe, MonadExceptOf.throw]

theorem except_pure_eq_ok_iff {a b : α} : (pure a : Except ε α) = .ok b ↔ a = b := by
  simp [pure, Except.pure]

theorem except_map_eq_ok_iff {f : α → β} {x : Except ε α} {b : β} :
    f <$> x = .ok b ↔ ∃ a, x = .ok a ∧ f a = b := by
  cases x <;> simp [Functor.map, Except.map]

/-- A row of steps behind a check that can end it. -/
theorem except_unless_eq_ok_iff {p : Prop} [Decidable p] {e : ε} {next : PUnit → Except ε β}
    {b : β} : (if p then throw e >>= next else next ⟨⟩) = .ok b ↔ ¬ p ∧ next ⟨⟩ = .ok b := by
  split <;> simp_all [except_bind_eq_ok_iff]

theorem mapM_eq_ok_iff {f : α → Except ε β} {as : List α} {bs : List β} :
    as.mapM f = .ok bs ↔ List.Forall₂ (fun a b => f a = .ok b) as bs := by
  induction as generalizing bs with
  | nil => cases bs <;> simp [except_pure_eq_ok_iff]
  | cons a as ih =>
    simp only [List.mapM_cons, except_bind_eq_ok_iff, except_pure_eq_ok_iff, ih]
    constructor
    · rintro ⟨b, hb, bs, hbs, rfl⟩
      exact .cons hb hbs
    · intro h
      cases h with
      | cons hb hbs => exact ⟨_, hb, _, hbs, rfl⟩

theorem exists_mem_of_mapM_eq_ok {f : α → Except ε β} {as : List α} {bs : List β}
    (h : as.mapM f = .ok bs) {b : β} (hb : b ∈ bs) : ∃ a ∈ as, f a = .ok b := by
  have hall := mapM_eq_ok_iff.1 h
  clear h
  induction hall with
  | nil => cases hb
  | cons hab _ ih =>
    rcases List.mem_cons.1 hb with rfl | hb
    · exact ⟨_, List.mem_cons_self, hab⟩
    · obtain ⟨a, ha, hfa⟩ := ih hb
      exact ⟨a, List.mem_cons_of_mem _ ha, hfa⟩

theorem estate_bind_eq_ok_iff {x : EStateM ε σ α} {f : α → EStateM ε σ β} {s t : σ} {b : β} :
    (x >>= f) s = .ok b t ↔ ∃ a u, x s = .ok a u ∧ f a u = .ok b t := by
  change EStateM.bind x f s = _ ↔ _
  rw [EStateM.bind]
  cases h : x s <;> simp [and_assoc]

theorem estate_bind_of_ok {x : EStateM ε σ α} {s t : σ} {a : α} (h : x s = .ok a t)
    (f : α → EStateM ε σ β) : (x >>= f) s = f a t := by
  simp [bind, EStateM.bind, h]

/-- Steps in a row fail where the first ones fail, or the others after them. -/
theorem estate_bind_eq_error_iff {x : EStateM ε σ α} {f : α → EStateM ε σ β} {s t : σ} {e : ε} :
    (x >>= f) s = .error e t ↔
      x s = .error e t ∨ ∃ a u, x s = .ok a u ∧ f a u = .error e t := by
  change EStateM.bind x f s = _ ↔ _
  rw [EStateM.bind]
  cases h : x s <;> simp [and_assoc]

theorem estate_pure_eq_ok_iff {a b : α} {s t : σ} :
    (pure a : EStateM ε σ α) s = .ok b t ↔ a = b ∧ s = t := by
  change EStateM.Result.ok a s = _ ↔ _
  simp

theorem estate_get_eq (s : σ) : (EStateM.get : EStateM ε σ σ) s = .ok s s := rfl

theorem estate_modify_eq (f : σ → σ) (s : σ) :
    (modify f : EStateM ε σ Unit) s = .ok () (f s) := rfl

/-- The state that steps leave, however they end. -/
def stateAfter (x : EStateM ε σ α) (s : σ) : σ :=
  match x s with
  | .ok _ t | .error _ t => t

theorem stateAfter_of_ok {x : EStateM ε σ α} {s t : σ} {a : α} (h : x s = .ok a t) :
    stateAfter x s = t := by
  simp [stateAfter, h]

theorem stateAfter_of_error {x : EStateM ε σ α} {s t : σ} {e : ε} (h : x s = .error e t) :
    stateAfter x s = t := by
  simp [stateAfter, h]

/-- Steps in a row leave what the first ones leave if those fail, and what the others make of it
otherwise. -/
theorem stateAfter_bind_cases (x : EStateM ε σ α) (f : α → EStateM ε σ β) (s : σ) :
    stateAfter (x >>= f) s = stateAfter x s ∨
      ∃ a, x s = .ok a (stateAfter x s) ∧
        stateAfter (x >>= f) s = stateAfter (f a) (stateAfter x s) := by
  simp only [stateAfter, bind, EStateM.bind]
  cases x s with
  | ok a t => exact .inr ⟨a, rfl, rfl⟩
  | error e t => exact .inl rfl

/-- What is given in the end does not change the state. -/
theorem stateAfter_bind_pure (x : EStateM ε σ α) (b : β) (s : σ) :
    stateAfter (x >>= fun _ => pure b) s = stateAfter x s := by
  simp only [stateAfter, bind, EStateM.bind]
  cases x s <;> rfl

/-- The state that steps leave one after another, each of them going on from what the one before it
leaves, however that one ends. -/
def stateAfterAll (step : α → EStateM ε σ β) (s : σ) (as : List α) : σ :=
  as.foldl (fun s a => stateAfter (step a) s) s

theorem stateAfterAll_append (step : α → EStateM ε σ β) (s : σ) (as bs : List α) :
    stateAfterAll step s (as ++ bs) = stateAfterAll step (stateAfterAll step s as) bs :=
  List.foldl_append

theorem stateAfterAll_cons (step : α → EStateM ε σ β) (s : σ) (a : α) (as : List α) :
    stateAfterAll step s (a :: as) = stateAfterAll step (stateAfter (step a) s) as := rfl

/-- What each step keeps, the whole row keeps. -/
theorem stateAfterAll_keeps {P : σ → Prop} {step : α → EStateM ε σ β} {as : List α}
    (hstep : ∀ a ∈ as, ∀ s, P s → P (stateAfter (step a) s)) {s : σ} (hs : P s) :
    P (stateAfterAll step s as) := by
  induction as generalizing s with
  | nil => exact hs
  | cons a as ih =>
    rw [List.forall_mem_cons] at hstep
    exact ih hstep.2 (hstep.1 s hs)

end JarRefit
