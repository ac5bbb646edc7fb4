import Mathlib.Algebra.BigOperators.Group.Finset.Basic
import Mathlib.Logic.Relation
import JarRefit.Proofs.Naming.Hierarchy

/-!
# What a search reaches

A search along a hierarchy ends whatever the hierarchy looks like, cycles included: a class is
expanded once, so there is no more than one turn for each parent that is named, and one for the
class it starts from. It finds an entry just if a class that can be reached has one.

## Main definitions

* `Hierarchy.Reaches`: a class is another one or an ancestor of it.
* `Hierarchy.Run`: the turns that a search takes, with their number.
* `Hierarchy.Finds`: what the result of a search has to be.
-/
namespace JarRefit.Naming

namespace Hierarchy

variable {β : Type} {h : Hierarchy} {lookup? : String → Option β}

/-- The second class is named as a parent of the first. -/
def IsParent (h : Hierarchy) (cls parent : String) : Prop :=
  parent ∈ h.parents cls

/-- The second class comes after zero or more steps from a class to a parent. -/
def Reaches (h : Hierarchy) : String → String → Prop :=
  Relation.ReflTransGen h.IsParent

/-! ## The turns of a search -/

/-- A search with its visited and its pending classes, the number of its turns, and its result. -/
inductive Run (h : Hierarchy) (lookup? : String → Option β) :
    List String → List String → Nat → Option β → Prop where
  | done (visited : List String) : Run h lookup? visited [] 0 none
  | skip {visited pending : List String} {c : String} {n : Nat} {result : Option β}
      (hc : c ∈ visited) (rest : Run h lookup? visited pending n result) :
      Run h lookup? visited (c :: pending) (n + 1) result
  | found {visited pending : List String} {c : String} {x : β} (hc : c ∉ visited)
      (hx : lookup? c = some x) : Run h lookup? visited (c :: pending) 1 (some x)
  | expand {visited pending : List String} {c : String} {n : Nat} {result : Option β}
      (hc : c ∉ visited) (hx : lookup? c = none)
      (rest : Run h lookup? (c :: visited) (h.parents c ++ pending) n result) :
      Run h lookup? visited (c :: pending) (n + 1) result

/-- Induction along a search, where unknown classes count as classes without parents. -/
@[elab_as_elim]
theorem search_induction (h : Hierarchy) (lookup? : String → Option β)
    {motive : List String → List String → Prop}
    (done : ∀ visited, motive visited [])
    (skip : ∀ visited c pending, c ∈ visited → motive visited pending →
      motive visited (c :: pending))
    (found : ∀ visited c pending x, c ∉ visited → lookup? c = some x →
      motive visited (c :: pending))
    (expand : ∀ visited c pending, c ∉ visited → lookup? c = none →
      motive (c :: visited) (h.parents c ++ pending) → motive visited (c :: pending))
    (visited pending : List String) : motive visited pending := by
  induction visited, pending using search.induct h lookup? with
  | case1 visited => exact done visited
  | case2 visited c pending hc ih => exact skip visited c pending (by simpa using hc) ih
  | case3 visited c pending hc x hx => exact found visited c pending x (by simpa using hc) hx
  | case4 visited c pending hc hx ps hps ih =>
    exact expand visited c pending (by simpa using hc) hx (by rwa [parents, hps])
  | case5 visited c pending hc hx hps ih =>
    exact expand visited c pending (by simpa using hc) hx (by rwa [parents, hps])

/-- The number of parents that are named for classes not visited yet. -/
def links (h : Hierarchy) (visited : List String) : Nat :=
  ∑ c ∈ h.known.toFinset \ visited.toFinset, (h.parents c).length

/-- Visiting a class takes the parents that are named for it out of those to come. -/
theorem links_cons {c : String} {visited : List String} (hc : c ∉ visited) :
    h.links (c :: visited) + (h.parents c).length = h.links visited := by
  rw [links, links, List.toFinset_cons, Finset.sdiff_insert]
  by_cases hknown : c ∈ h.known
  · exact Finset.sum_erase_add _ _ (by simp [hc, hknown])
  · have hparents : h.parents c = [] := by
      cases hps : h.parents? c with
      | none => simp [parents, hps]
      | some ps => exact absurd (mem_known_of_parents? hps) hknown
    rw [Finset.sum_erase _ (by rw [hparents, List.length_nil]), hparents, List.length_nil,
      Nat.add_zero]

/-- A search ends after at most one turn for each pending class and each parent that is named for a
class not visited yet. -/
theorem run_search (visited pending : List String) :
    ∃ n ≤ pending.length + h.links visited,
      h.Run lookup? visited pending n (h.search lookup? visited pending) := by
  induction visited, pending using search_induction h lookup? with
  | done visited => exact ⟨0, Nat.zero_le _, by rw [search_nil]; exact .done visited⟩
  | skip visited c pending hc ih =>
    obtain ⟨n, hn, hrun⟩ := ih
    rw [search_cons, if_pos hc]
    exact ⟨n + 1, by rw [List.length_cons]; omega, .skip hc hrun⟩
  | found visited c pending x hc hx =>
    rw [search_cons, if_neg hc, hx, Option.some_or]
    exact ⟨1, by rw [List.length_cons]; omega, .found hc hx⟩
  | expand visited c pending hc hx ih =>
    obtain ⟨n, hn, hrun⟩ := ih
    have := links_cons (h := h) hc
    rw [search_cons, if_neg hc, hx, Option.none_or]
    exact ⟨n + 1, by rw [List.length_append] at hn; rw [List.length_cons]; omega,
      .expand hc hx hrun⟩

/-! ## What it finds -/

/-- What is found is the entry of a class that a pending one reaches. -/
theorem reaches_of_search_eq_some {visited pending : List String} {x : β}
    (hx : h.search lookup? visited pending = some x) :
    ∃ c ∈ pending, ∃ a, h.Reaches c a ∧ lookup? a = some x := by
  induction visited, pending using search_induction h lookup? with
  | done visited => simp at hx
  | skip visited c pending hc ih =>
    rw [search_cons, if_pos hc] at hx
    obtain ⟨c', hc', hreach⟩ := ih hx
    exact ⟨c', List.mem_cons_of_mem _ hc', hreach⟩
  | found visited c pending y hc hy =>
    rw [search_cons, if_neg hc, hy, Option.some_or] at hx
    exact ⟨c, List.mem_cons_self, c, .refl, hy.trans hx⟩
  | expand visited c pending hc hy ih =>
    rw [search_cons, if_neg hc, hy, Option.none_or] at hx
    obtain ⟨c', hc', a, hreach, ha⟩ := ih hx
    rcases List.mem_append.1 hc' with hparent | hpending
    · exact ⟨c, List.mem_cons_self, a, .head hparent hreach, ha⟩
    · exact ⟨c', List.mem_cons_of_mem _ hpending, a, hreach, ha⟩

/-- The visited classes have no entry, and their parents are visited or pending. -/
def Explored (h : Hierarchy) (lookup? : String → Option β) (visited pending : List String) : Prop :=
  ∀ c ∈ visited, lookup? c = none ∧ ∀ p ∈ h.parents c, p ∈ visited ∨ p ∈ pending

/-- Where nothing is found, no class that can be reached has an entry. -/
theorem lookup?_eq_none_of_search {visited pending : List String}
    (hnone : h.search lookup? visited pending = none)
    (hexplored : h.Explored lookup? visited pending) {c a : String}
    (hc : c ∈ visited ∨ c ∈ pending) (hreach : h.Reaches c a) : lookup? a = none := by
  induction visited, pending using search_induction h lookup? generalizing c with
  | done visited =>
    -- With nothing pending the visited classes hold their own ancestors.
    have ha : a ∈ visited := by
      induction hreach with
      | refl => simpa using hc
      | tail _ hparent ih => simpa using (hexplored _ ih).2 _ hparent
    exact (hexplored a ha).1
  | skip visited d pending hd ih =>
    rw [search_cons, if_pos hd] at hnone
    refine ih hnone (fun v hv => ⟨(hexplored v hv).1, fun p hp => ?_⟩) ?_ hreach
    · have := (hexplored v hv).2 p hp
      grind
    · grind
  | found visited d pending x hd hx =>
    rw [search_cons, if_neg hd, hx] at hnone
    cases hnone
  | expand visited d pending hd hx ih =>
    rw [search_cons, if_neg hd, hx, Option.none_or] at hnone
    refine ih hnone (fun v hv => ?_) ?_ hreach
    · rcases List.mem_cons.1 hv with rfl | hv
      · exact ⟨hx, fun p hp => .inr (List.mem_append_left _ hp)⟩
      · refine ⟨(hexplored v hv).1, fun p hp => ?_⟩
        have := (hexplored v hv).2 p hp
        grind
    · grind

/-- What a search from a class has to come to: an end, and the entry of a class that it reaches
just if there is one, its own before all others. -/
structure Finds (h : Hierarchy) (lookup? : String → Option β) (cls : String)
    (result : Option β) : Prop where
  ends : ∃ n ≤ 1 + h.links [], h.Run lookup? [] [cls] n result
  isSome_iff : result.isSome ↔ ∃ a, h.Reaches cls a ∧ (lookup? a).isSome
  reached : ∀ x, result = some x → ∃ a, h.Reaches cls a ∧ lookup? a = some x
  own : ∀ x, lookup? cls = some x → result = some x

theorem finds_find? (cls : String) : h.Finds lookup? cls (h.find? lookup? cls) := by
  have hreached : ∀ x, h.find? lookup? cls = some x →
      ∃ a, h.Reaches cls a ∧ lookup? a = some x := by
    intro x hx
    obtain ⟨c, hc, a, hreach, ha⟩ := reaches_of_search_eq_some hx
    obtain rfl := List.mem_singleton.1 hc
    exact ⟨a, hreach, ha⟩
  refine ⟨run_search [] [cls], ⟨fun hsome => ?_, ?_⟩, hreached, fun x hx => ?_⟩
  · obtain ⟨x, hx⟩ := Option.isSome_iff_exists.1 hsome
    obtain ⟨a, hreach, ha⟩ := hreached x hx
    exact ⟨a, hreach, by rw [ha, Option.isSome_some]⟩
  · rintro ⟨a, hreach, ha⟩
    by_contra hnone
    have := lookup?_eq_none_of_search (Option.not_isSome_iff_eq_none.1 hnone)
      (fun _ hv => absurd hv List.not_mem_nil) (.inr List.mem_cons_self) hreach
    rw [this] at ha
    cases ha
  · rw [find?_eq_or, hx, Option.some_or]

end Hierarchy

/-! ## New names of members -/

namespace SymbolMapping

variable {m : SymbolMapping}

/-- The hierarchy of the mapping; without one no class has parents. -/
def ancestry (m : SymbolMapping) : Hierarchy :=
  m.hierarchy.getD ⟨[]⟩

/-- A member that is referred to gets the entry of a class that its owner reaches, just if there is
one, and that of the owner before all others. -/
theorem finds_renamed (owner name descriptor : String) :
    m.ancestry.Finds (m.fieldEntry? name) owner (m.renameField? owner name) ∧
      (isReserved name = false →
        m.ancestry.Finds (m.methodEntry? name descriptor) owner
          (m.renameMethod? owner name descriptor)) := by
  refine ⟨Hierarchy.finds_find? owner, fun hname => ?_⟩
  rw [renameMethod?, hname, if_neg Bool.false_ne_true]
  exact Hierarchy.finds_find? owner

/-- A hierarchy with a class that is its own parent, a cycle, a parent named twice, a class that two
tables know, and one that none does; the members have their entries behind all of it. -/
def tangled : SymbolMapping :=
  { (SymbolMapping.empty.addField "e" "x" "field_1").addMethod "d" "run" "()V" "func_2" with
    hierarchy := some
      ⟨[((∅ : ParentTable).insert "a" ["a", "b", "b"]).insert "b" ["c", "a", "d"],
        ((∅ : ParentTable).insert "b" ["g"]).insert "d" ["b", "e"]]⟩ }

theorem renameField_tangled : tangled.renameField? "a" "x" = some "field_1" := by
  simp [renameField?, findInHierarchy, tangled, Hierarchy.find?, Hierarchy.search_cons, fieldEntry?,
    addField, addMethod, SymbolMapping.empty, fieldKey, Hierarchy.parents?, Hierarchy.parents,
    Std.HashMap.getElem_insert, Std.HashMap.getElem_insertIfNew]

theorem renameMethod_tangled : tangled.renameMethod? "a" "run" "()V" = some "func_2" := by
  simp [renameMethod?, isReserved, findInHierarchy, tangled, Hierarchy.find?, Hierarchy.search_cons,
    methodEntry?, addField, addMethod, SymbolMapping.empty, methodKey, Hierarchy.parents?,
    Hierarchy.parents, Std.HashMap.getElem_insert, Std.HashMap.getElem_insertIfNew]

theorem finds_renamed_tangled :
    isReserved "run" = false ∧
      tangled.ancestry.Finds (tangled.fieldEntry? "x") "a" (some "field_1") ∧
      tangled.ancestry.Finds (tangled.methodEntry? "run" "()V") "a" (some "func_2") := by
  refine ⟨by decide, ?_, ?_⟩
  · rw [← renameField_tangled]
    exact (finds_renamed "a" "x" "()V").1
  · rw [← renameMethod_tangled]
    exact (finds_renamed "a" "run" "()V").2 (by decide)

end SymbolMapping

end JarRefit.Naming
