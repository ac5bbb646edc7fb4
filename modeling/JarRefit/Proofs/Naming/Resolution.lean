import JarRefit.Proofs.Naming.Reachability

/-!
# The order of resolution

Where no class is its own ancestor, a search that visits each class once finds what plain recursion
finds: the entry of the class itself, or else the first one that a parent gives, in the order of the
parents. An ancestor that several parents share is searched once only, and that loses nothing,
because all that has been searched by then has no entry.

## Main definitions

* `Hierarchy.Acyclic`: no class is its own ancestor.
* `Hierarchy.Barren`: neither a class nor any of its ancestors has an entry.
* `Hierarchy.Settles`: what a search makes of some classes before it goes on.
* `Hierarchy.SettlesAlone`: a class that a search makes the same of, whatever it has visited.
* `Hierarchy.Nearest`: the first class with an entry along one line of ancestors.
-/
namespace JarRefit.Naming.Hierarchy

variable {β : Type} {h : Hierarchy} {lookup? : String → Option β} {c p : String}

/-! ## Acyclic hierarchies -/

/-- No class comes back to itself over one or more parents. -/
def Acyclic (h : Hierarchy) : Prop :=
  ∀ c, ¬ Relation.TransGen h.IsParent c c

theorem mem_known_of_isParent (hparent : h.IsParent c p) : c ∈ h.known := by
  cases hps : h.parents? c with
  | none => simp [IsParent, parents, hps] at hparent
  | some ps => exact mem_known_of_parents? hps

/-- A hierarchy in which parents have a lower rank. -/
theorem acyclic_of_rank (rank : String → Nat) (hrank : ∀ c, ∀ p ∈ h.parents c, rank p < rank c) :
    h.Acyclic := by
  have hlower : ∀ {c a}, Relation.TransGen h.IsParent c a → rank a < rank c := by
    intro c a hpath
    induction hpath with
    | single hparent => exact hrank _ _ hparent
    | tail _ hparent ih => exact (hrank _ _ hparent).trans ih
  exact fun c hcycle => (hlower hcycle).ne rfl

/-- Going up an acyclic hierarchy comes to an end: a class reaches itself, and none of its parents
does. -/
theorem Acyclic.wellFounded (hacyclic : h.Acyclic) : WellFounded fun p c => h.IsParent c p := by
  classical
  let reached (c : String) : Finset String := h.known.toFinset.filter (h.Reaches c)
  have hless : ∀ {p c}, h.IsParent c p → (reached p).card < (reached c).card := by
    intro p c hparent
    refine Finset.card_lt_card ((Finset.ssubset_iff_of_subset fun a ha => ?_).2 ⟨c, ?_, ?_⟩)
    · obtain ⟨hknown, hreach⟩ := Finset.mem_filter.1 ha
      exact Finset.mem_filter.2 ⟨hknown, .head hparent hreach⟩
    · exact Finset.mem_filter.2 ⟨by simpa using mem_known_of_isParent hparent, .refl⟩
    · intro hmem
      exact hacyclic c (.head' hparent (Finset.mem_filter.1 hmem).2)
  exact Subrelation.wf hless (measure fun c => (reached c).card).wf

/-! ## Searching on -/

/-- Neither a class nor any of its ancestors has an entry. -/
def Barren (h : Hierarchy) (lookup? : String → Option β) (cls : String) : Prop :=
  ∀ a, h.Reaches cls a → lookup? a = none

theorem find?_eq_none_iff : h.find? lookup? c = none ↔ h.Barren lookup? c := by
  rw [← Option.not_isSome_iff_eq_none, (finds_find? c).isSome_iff]
  simp [Barren]

/-- A search that has some classes in front of it takes their answer, or goes on without it, and
then no other classes are visited than those that they reach. -/
def Settles (h : Hierarchy) (lookup? : String → Option β) (visited front : List String)
    (answer : Option β) : Prop :=
  ∃ added, (∀ a ∈ added, ∃ p ∈ front, h.Reaches p a) ∧
    ∀ pending, h.search lookup? visited (front ++ pending) =
      answer.or (h.search lookup? (added ++ visited) pending)

/-- Among the visited classes only barren ones can be reached. -/
def Open (h : Hierarchy) (lookup? : String → Option β) (visited front : List String) : Prop :=
  ∀ v ∈ visited, ∀ p ∈ front, h.Reaches p v → h.Barren lookup? v

/-- A search that comes to a class makes of it what a search from it finds. -/
def SettlesAlone (h : Hierarchy) (lookup? : String → Option β) (cls : String) : Prop :=
  ∀ visited, h.Open lookup? visited [cls] →
    h.Settles lookup? visited [cls] (h.find? lookup? cls)

/-- Classes that settle one by one settle together, with the first of their answers. -/
theorem settles_findSome? {front : List String} (hfront : ∀ p ∈ front, h.SettlesAlone lookup? p)
    {visited : List String} (hopen : h.Open lookup? visited front) :
    h.Settles lookup? visited front (front.findSome? (h.find? lookup?)) := by
  induction front generalizing visited with
  | nil => exact ⟨[], by simp, by simp⟩
  | cons p front ih =>
    rw [List.forall_mem_cons] at hfront
    obtain ⟨added, hadded, hsearch⟩ := hfront.1 visited fun v hv q hq =>
      hopen v hv q (by simp_all)
    simp only [List.mem_singleton, exists_eq_left] at hadded
    cases hfind : h.find? lookup? p with
    | some x =>
      refine ⟨added, fun a ha => ⟨p, List.mem_cons_self, hadded a ha⟩, fun pending => ?_⟩
      have := hsearch (front ++ pending)
      simpa [hfind] using this
    | none =>
      -- What has been added is barren, so it does not stand in the way of the others.
      have hbarren : ∀ a ∈ added, h.Barren lookup? a := fun a ha b hab =>
        find?_eq_none_iff.1 hfind b ((hadded a ha).trans hab)
      have hopen' : h.Open lookup? (added ++ visited) front := by
        intro v hv q hq hreach
        rcases List.mem_append.1 hv with hv | hv
        · exact hbarren v hv
        · exact hopen v hv q (List.mem_cons_of_mem _ hq) hreach
      obtain ⟨added', hadded', hsearch'⟩ := ih hfront.2 hopen'
      refine ⟨added' ++ added, fun a ha => ?_, fun pending => ?_⟩
      · rcases List.mem_append.1 ha with ha | ha
        · obtain ⟨q, hq, hreach⟩ := hadded' a ha
          exact ⟨q, List.mem_cons_of_mem _ hq, hreach⟩
        · exact ⟨p, List.mem_cons_self, hadded a ha⟩
      · calc h.search lookup? visited (p :: front ++ pending)
            = h.search lookup? (added ++ visited) (front ++ pending) := by
              simpa [hfind] using hsearch (front ++ pending)
          _ = _ := by rw [hsearch', List.append_assoc, List.findSome?_cons, hfind]

/-- The recursion at a class whose parents settle. -/
theorem find?_of_settles (hacyclic : h.Acyclic)
    (hparents : ∀ p ∈ h.parents c, h.SettlesAlone lookup? p) :
    h.find? lookup? c = (lookup? c).or ((h.parents c).findSome? (h.find? lookup?)) := by
  have hopen : h.Open lookup? [c] (h.parents c) := by
    intro v hv p hp hreach
    obtain rfl := List.mem_singleton.1 hv
    exact absurd (.head' hp hreach) (hacyclic v)
  obtain ⟨added, -, hsearch⟩ := settles_findSome? hparents hopen
  have hall := hsearch []
  rw [List.append_nil, search_nil, Option.or_none] at hall
  rw [find?_eq_or, hall]

theorem Acyclic.settlesAlone (hacyclic : h.Acyclic) (c : String) : h.SettlesAlone lookup? c := by
  induction c using hacyclic.wellFounded.induction with
  | _ c ih =>
    intro visited hopen
    have hfind := find?_of_settles hacyclic ih
    by_cases hc : c ∈ visited
    · have hnone := find?_eq_none_iff.2 (hopen c hc c List.mem_cons_self .refl)
      exact ⟨[], by simp, fun pending => by simp [search_cons, hc, hnone]⟩
    · cases hx : lookup? c with
      | some x => exact ⟨[], by simp, fun pending => by simp [search_cons, hc, hfind, hx]⟩
      | none =>
        have hopen' : h.Open lookup? (c :: visited) (h.parents c) := by
          intro v hv p hp hreach
          rcases List.mem_cons.1 hv with rfl | hv
          · exact absurd (.head' hp hreach) (hacyclic v)
          · exact hopen v hv c List.mem_cons_self (.head hp hreach)
        obtain ⟨added, hadded, hsearch⟩ := settles_findSome? ih hopen'
        refine ⟨added ++ [c], fun a ha => ⟨c, List.mem_cons_self, ?_⟩, fun pending => ?_⟩
        · rcases List.mem_append.1 ha with ha | ha
          · obtain ⟨p, hp, hreach⟩ := hadded a ha
            exact .head hp hreach
          · rw [List.mem_singleton.1 ha]
            exact .refl
        · rw [List.singleton_append, search_cons, if_neg hc, hx, Option.none_or, hsearch, hfind, hx,
            Option.none_or, List.append_assoc, List.singleton_append]

/-- In an acyclic hierarchy a search finds the entry of the class, or else the first one that a
parent gives. -/
theorem Acyclic.find?_eq (hacyclic : h.Acyclic) (c : String) :
    h.find? lookup? c = (lookup? c).or ((h.parents c).findSome? (h.find? lookup?)) :=
  find?_of_settles hacyclic fun p _ => hacyclic.settlesAlone p

/-! ## Going up one line of ancestors -/

/-- The second class is the nearest one with an entry, going up from the first along `super`. -/
inductive Nearest (super : String → String → Prop) (lookup? : String → Option β) :
    String → String → Prop where
  | own {cls : String} (hsome : (lookup? cls).isSome) : Nearest super lookup? cls cls
  | above {cls s a : String} (hnone : lookup? cls = none) (hsuper : super cls s)
      (rest : Nearest super lookup? s a) : Nearest super lookup? cls a

variable {super : String → String → Prop} {a : String}

theorem exists_nearest (hline : Relation.ReflTransGen super c a) (ha : (lookup? a).isSome) :
    ∃ n, Nearest super lookup? c n := by
  induction hline using Relation.ReflTransGen.head_induction_on with
  | refl => exact ⟨a, .own ha⟩
  | @head c s hsuper _ ih =>
    cases hc : lookup? c with
    | some x => exact ⟨c, .own (by simp [hc])⟩
    | none =>
      obtain ⟨n, hn⟩ := ih
      exact ⟨n, .above hc hsuper hn⟩

theorem Nearest.isSome (hn : Nearest super lookup? c a) : (lookup? a).isSome := by
  induction hn with
  | own hsome => exact hsome
  | above _ _ _ ih => exact ih

/-- The nearest entry along the first parents comes before all others. -/
theorem Acyclic.find?_eq_of_nearest (hacyclic : h.Acyclic)
    (hfirst : ∀ {cls s}, super cls s → ∃ rest, h.parents cls = s :: rest)
    (hn : Nearest super lookup? c a) : h.find? lookup? c = lookup? a := by
  obtain ⟨x, hx⟩ := Option.isSome_iff_exists.1 hn.isSome
  rw [hx]
  induction hn with
  | own _ => rw [hacyclic.find?_eq, hx, Option.some_or]
  | @above c s a hnone hsuper _ ih =>
    obtain ⟨rest, hparents⟩ := hfirst hsuper
    rw [hacyclic.find?_eq, hnone, Option.none_or, hparents, List.findSome?_cons, ih hx]

end JarRefit.Naming.Hierarchy
