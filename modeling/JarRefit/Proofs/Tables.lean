import Std.Data.HashMap

/-!
# Tables that fill up

What a table answers to which entries are added, one after another, for names that have none yet.
-/
namespace JarRefit

/-- Where each step only fills a gap, a run leaves what was there, or else the first answer. -/
theorem foldl_eq_or {α β σ : Type} (get : σ → Option β) {step : σ → α → σ} {answer : α → Option β}
    (h : ∀ s a, get (step s a) = (get s).or (answer a)) (s : σ) (as : List α) :
    get (as.foldl step s) = (get s).or (as.findSome? answer) := by
  induction as generalizing s with
  | nil => simp
  | cons a as ih =>
    rw [List.foldl_cons, ih, h, Option.or_assoc, List.findSome?_cons]
    cases answer a <;> rfl

theorem getElem?_insertIfNew {β : Type} (table : Std.HashMap String β) (key : String) (value : β)
    (name : String) :
    (table.insertIfNew key value)[name]? =
      (table[name]?).or (if key = name then some value else none) := by
  rw [Std.HashMap.getElem?_insertIfNew]
  grind

end JarRefit
