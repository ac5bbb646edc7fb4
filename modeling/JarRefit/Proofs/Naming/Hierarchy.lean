import JarRefit.Naming.SymbolMapping

/-!
# Searching hierarchies

The search for an entry, as one equation for each form of the pending classes.
-/
namespace JarRefit.Naming.Hierarchy

variable {β : Type} (h : Hierarchy) (lookup? : String → Option β) (visited : List String)

@[simp]
theorem search_nil : h.search lookup? visited [] = none := by
  rw [search]

theorem search_cons (c : String) (pending : List String) :
    h.search lookup? visited (c :: pending) =
      if c ∈ visited then h.search lookup? visited pending
      else (lookup? c).or (h.search lookup? (c :: visited) (h.parents c ++ pending)) := by
  rw [search]
  by_cases hvisited : c ∈ visited
  · simp [hvisited]
  · simp only [List.contains_eq_mem, hvisited, decide_false, Bool.false_eq_true, dite_false,
      if_false]
    cases lookup? c with
    | some found => rfl
    | none =>
      simp only [Option.none_or, parents]
      split
      · next hparents => rw [hparents, Option.getD_some]
      · next hparents => rw [hparents, Option.getD_none, List.nil_append]

/-- The entry of a class itself comes before those of its ancestors. -/
theorem find?_eq_or (c : String) :
    h.find? lookup? c = (lookup? c).or (h.search lookup? [c] (h.parents c)) := by
  rw [find?, search_cons]
  simp

end JarRefit.Naming.Hierarchy
