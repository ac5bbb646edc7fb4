import JarRefit.Files.World
import JarRefit.Proofs.Files.Store

/-!
# What runs leave

Each step of a run by what it does when it succeeds, and what it leaves however it ends.

## Main definitions

* `Run.Reads`: a run that leaves the store as it is.
* `Run.Writes`: a run that touches no other files than those that some paths name.
-/
namespace JarRefit.Files.Run

variable {ε δ α β : Type} {w w' : World} {a : α}

theorem read_eq_ok_iff {fault : IoFault → ε} {f : Store → Except IoFault α} :
    read fault f w = .ok a w' ↔ f w.store = .ok a ∧ w' = w := by
  unfold read
  split <;> simp_all [eq_comm]

theorem ofStore_eq_ok_iff {fault : IoFault → ε} {f : Store → Except IoFault (α × Store)} :
    ofStore fault f w = .ok a w' ↔
      ∃ store, f w.store = .ok (a, store) ∧ w' = { w with store } := by
  unfold ofStore
  split <;> grind

theorem changeStore_eq_ok_iff {fault : IoFault → ε} {f : Store → Except IoFault Store} :
    changeStore fault f w = .ok () w' ↔
      ∃ store, f w.store = .ok store ∧ w' = { w with store } := by
  unfold changeStore
  split <;> simp_all [eq_comm]

theorem store_of_ofStore_error {fault : IoFault → ε}
    {f : Store → Except IoFault (α × Store)} {e : ε} (h : ofStore fault f w = .error e w') :
    w'.store = w.store := by
  unfold ofStore at h
  split at h <;> cases h
  rfl

theorem store_of_changeStore_error {fault : IoFault → ε} {f : Store → Except IoFault Store}
    {e : ε} (h : changeStore fault f w = .error e w') : w'.store = w.store := by
  unfold changeStore at h
  split at h <;> cases h
  rfl

theorem onStore_eq_ok_iff {fault : IoFault → ε} {action : EStateM IoFault Store α} :
    onStore fault action w = .ok a w' ↔
      ∃ store, action w.store = .ok a store ∧ w' = { w with store } := by
  unfold onStore
  split <;> grind

theorem mapFault_eq_ok_iff {run : Run ε α} {f : ε → δ} :
    mapFault run f w = .ok a w' ↔ run w = .ok a w' := by
  unfold mapFault
  split <;> simp_all

theorem mapFault_eq_error_iff {run : Run ε α} {f : ε → δ} {d : δ} :
    mapFault run f w = .error d w' ↔ ∃ e, run w = .error e w' ∧ f e = d := by
  unfold mapFault
  split <;> grind

theorem stateAfter_mapFault (run : Run ε α) (f : ε → δ) (w : World) :
    stateAfter (mapFault run f) w = stateAfter run w := by
  simp only [stateAfter, mapFault]
  cases run w <;> rfl

/-! ## Runs that only read -/

/-- A run that leaves the store as it is, however it ends. -/
def Reads (run : Run ε α) : Prop :=
  ∀ w, (stateAfter run w).store = w.store

namespace Reads

theorem store_eq {run : Run ε α} (h : Reads run) (hrun : run w = .ok a w') :
    w'.store = w.store :=
  stateAfter_of_ok hrun ▸ h w

theorem pure (a : α) : Reads (Pure.pure a : Run ε α) :=
  fun _ => rfl

theorem throw (e : ε) : Reads (MonadExcept.throw e : Run ε α) :=
  fun _ => rfl

theorem bind {run : Run ε α} {next : α → Run ε β} (h : Reads run) (hnext : ∀ a, Reads (next a)) :
    Reads (run >>= next) := by
  intro w
  obtain hstop | ⟨a, -, hgo⟩ := stateAfter_bind_cases run next w
  · exact hstop ▸ h w
  · exact hgo ▸ (hnext a _).trans (h w)

theorem mapFault {run : Run ε α} (h : Reads run) (f : ε → δ) : Reads (Run.mapFault run f) := by
  intro w
  rw [stateAfter_mapFault]
  exact h w

theorem read (fault : IoFault → ε) (f : Store → Except IoFault α) :
    Reads (Run.read fault f) := by
  intro w
  rw [stateAfter, Run.read]
  cases f w.store <;> rfl

theorem report (notice : Notice) : Reads (Run.report notice : Run ε Unit) :=
  fun _ => rfl

theorem reportAll (notices : List Notice) : Reads (Run.reportAll notices : Run ε Unit) :=
  fun _ => rfl

theorem foldlM {step : β → α → Run ε β} (h : ∀ b a, Reads (step b a)) (xs : List α) (b : β) :
    Reads (xs.foldlM step b) := by
  induction xs generalizing b with
  | nil => exact .pure b
  | cons x xs ih =>
    rw [List.foldlM_cons]
    exact (h b x).bind ih

theorem mapM {f : α → Run ε β} (h : ∀ a, Reads (f a)) (xs : List α) : Reads (xs.mapM f) := by
  induction xs with
  | nil => exact .pure []
  | cons x xs ih =>
    rw [List.mapM_cons]
    exact (h x).bind fun y => ih.bind fun ys => .pure (y :: ys)

end Reads

/-! ## Runs that write -/

/-- A run that makes directories and writes files at no other places than those that some paths
name, however it ends. -/
def Writes (paths : List Path) (run : Run ε α) : Prop :=
  ∀ w, Store.Evolves (w.store.placesOf paths) w.store (stateAfter run w).store

namespace Writes

variable {paths : List Path}

theorem evolves {run : Run ε α} (h : Writes paths run) (hrun : run w = .ok a w') :
    Store.Evolves (w.store.placesOf paths) w.store w'.store :=
  stateAfter_of_ok hrun ▸ h w

theorem evolves_of_error {run : Run ε α} {e : ε} (h : Writes paths run)
    (hrun : run w = .error e w') : Store.Evolves (w.store.placesOf paths) w.store w'.store :=
  stateAfter_of_error hrun ▸ h w

theorem mono {paths' : List Path} {run : Run ε α} (h : Writes paths run)
    (hsub : paths ⊆ paths') : Writes paths' run :=
  fun w => (h w).mono (Store.placesOf_mono hsub)

theorem bind {run : Run ε α} {next : α → Run ε β} (h : Writes paths run)
    (hnext : ∀ a, Writes paths (next a)) : Writes paths (run >>= next) := by
  intro w
  obtain hstop | ⟨a, -, hgo⟩ := stateAfter_bind_cases run next w
  · exact hstop ▸ h w
  · exact hgo ▸ (h w).trans_placesOf (hnext a _)

theorem mapFault {run : Run ε α} (h : Writes paths run) (f : ε → δ) :
    Writes paths (Run.mapFault run f) := by
  intro w
  rw [stateAfter_mapFault]
  exact h w

theorem makeDirectories (fault : IoFault → ε) (path : Path) :
    Writes [] (Run.onStore fault (Store.makeDirectories path)) := by
  intro w
  have hevolves :=
    (Store.Evolves.makeDirectories path w.store).mono (Set.empty_subset (w.store.placesOf []))
  rw [stateAfter] at hevolves ⊢
  unfold Run.onStore
  cases hmade : Store.makeDirectories path w.store <;> simpa [hmade] using hevolves

/-- Writing a file touches the place that its path names. -/
theorem write (fault : IoFault → ε) (path : Path) (content : Content) :
    Writes [path] (Run.changeStore fault fun s => s.write path content) := by
  intro w
  rw [stateAfter, Run.changeStore]
  cases hwrite : w.store.write path content with
  | error fault => exact .refl _ _
  | ok s =>
    obtain ⟨⟨place, made⟩, hmade, hsame⟩ := except_bind_eq_ok_iff.1 hwrite
    obtain rfl := except_pure_eq_ok_iff.1 hsame
    exact .of_create hmade

theorem copy (fault : IoFault → ε) (source target : Path) :
    Writes [target] (Run.changeStore fault fun s => s.copy source target) := by
  intro w
  rw [stateAfter, Run.changeStore]
  cases hcopy : w.store.copy source target with
  | error fault => exact .refl _ _
  | ok s => exact .copy hcopy

end Writes

theorem Reads.writes {run : Run ε α} (h : Reads run) (paths : List Path) : Writes paths run := by
  intro w
  rw [h w]
  exact .refl _ _

end JarRefit.Files.Run
