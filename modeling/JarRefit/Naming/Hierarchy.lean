import Std.Data.HashMap

/-!
# Class hierarchies

Which classes a class directly extends or implements, as far as it is known, and the search for
an entry along it: depth first from a class, its parents in their order, each class once.
-/
namespace JarRefit.Naming

/-- The direct parents of some classes. -/
abbrev ParentTable := Std.HashMap String (List String)

/-- Parent tables in order; the first one that knows a class answers for it. -/
structure Hierarchy where
  tables : List ParentTable

namespace Hierarchy

/-- The direct parents of a class, if it is known. -/
def parents? (h : Hierarchy) (cls : String) : Option (List String) :=
  h.tables.findSome? (·[cls]?)

/-- The direct parents of a class; an unknown class has none. -/
def parents (h : Hierarchy) (cls : String) : List String :=
  (h.parents? cls).getD []

/-- The classes that some table knows. -/
def known (h : Hierarchy) : List String :=
  h.tables.flatMap (·.keys)

theorem mem_known_of_parents? {h : Hierarchy} {cls : String} {ps : List String}
    (hp : h.parents? cls = some ps) : cls ∈ h.known := by
  obtain ⟨table, ht, hc⟩ := List.exists_of_findSome?_eq_some hp
  refine List.mem_flatMap.2 ⟨table, ht, Std.HashMap.mem_keys.2 ?_⟩
  rw [Std.HashMap.mem_iff_isSome_getElem?, hc]
  rfl

/-- The known classes that are not among the visited ones. -/
def unvisited (h : Hierarchy) (visited : List String) : List String :=
  h.known.filter (!visited.contains ·)

theorem unvisited_cons (h : Hierarchy) (c : String) (visited : List String) :
    h.unvisited (c :: visited) = (h.unvisited visited).filter (fun x => decide (x ≠ c)) := by
  unfold unvisited
  rw [List.filter_filter]
  congr 1
  funext x
  simp

theorem length_unvisited_cons_le (h : Hierarchy) (c : String) (visited : List String) :
    (h.unvisited (c :: visited)).length ≤ (h.unvisited visited).length := by
  rw [unvisited_cons]
  exact List.length_filter_le _ _

theorem length_unvisited_cons_lt {h : Hierarchy} {c : String} {visited : List String}
    (hk : c ∈ h.known) (hv : visited.contains c = false) :
    (h.unvisited (c :: visited)).length < (h.unvisited visited).length := by
  have hmem : c ∈ h.unvisited visited := List.mem_filter.2 ⟨hk, by simp only [hv, Bool.not_false]⟩
  rw [unvisited_cons]
  exact List.length_filter_lt_length_iff_exists.2 ⟨c, hmem, by simp⟩

/-- The first entry found among the pending classes and their ancestors. A class already visited is
passed over; the parents of a class come before what was pending after it. -/
def search {β : Type} (h : Hierarchy) (lookup? : String → Option β) (visited : List String) :
    List String → Option β
  | [] => none
  | c :: pending =>
    if _hv : visited.contains c then h.search lookup? visited pending
    else
      match lookup? c with
      | some found => some found
      | none =>
        match _hp : h.parents? c with
        | some ps => h.search lookup? (c :: visited) (ps ++ pending)
        | none => h.search lookup? (c :: visited) pending
termination_by pending => ((h.unvisited visited).length, pending.length)
decreasing_by
  · exact Prod.Lex.right _ (by simp)
  · exact Prod.Lex.left _ _
      (length_unvisited_cons_lt (mem_known_of_parents? _hp) (by simpa using _hv))
  · have := length_unvisited_cons_le h c visited
    rcases Nat.lt_or_eq_of_le this with hlt | heq
    · exact Prod.Lex.left _ _ hlt
    · rw [heq]; exact Prod.Lex.right _ (by simp)

/-- The entry of a class or of the nearest of its ancestors that has one. -/
def find? {β : Type} (h : Hierarchy) (lookup? : String → Option β) (cls : String) : Option β :=
  h.search lookup? [] [cls]

end Hierarchy

end JarRefit.Naming
