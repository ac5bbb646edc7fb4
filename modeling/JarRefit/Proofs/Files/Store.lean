import Mathlib.Data.Set.Basic
import JarRefit.Files.Store
import JarRefit.Proofs.Files.Path
import JarRefit.Proofs.Steps

/-!
# What writing leaves

Making directories and writing files take nothing away: what is there stays what it is, a directory
or a file, and only the files that are written get another content. So a path that leads somewhere
goes on leading there.

## Main definitions

* `Store.Evolves`: one store is another after directories were made and some files written.
* `Store.file?`: the content of the file at a place.
* `Store.place?`: the place that a path names, whatever stands there.
* `Store.IsFileName`: a name that a file in the working directory can have.
-/
namespace JarRefit.Files

namespace Store

variable {s s' s'' : Store} {path : Path} {place : Place} {touched : Set Place}

theorem node?_put (node : Node) (q : Place) : (s.put place node).node? q =
    if q = [] then some .directory else if place = q then some node else s.node? q := by
  by_cases hq : q = [] <;> simp [node?, put, hq, Std.HashMap.getElem?_insert]

theorem node?_put_name (path name : String) (node : Node) :
    (s.put [path] node).node? [name] = if path = name then some node else s.node? [name] := by
  simp [node?_put]

@[simp]
theorem node?_nil : s.node? [] = some .directory := by
  simp [node?]

/-! ## Stores that evolve -/

/-- The second store is the first one after directories were made where nothing stood, and files
written at no other places than the touched ones. -/
structure Evolves (touched : Set Place) (s s' : Store) : Prop where
  root : s'.root = s.root
  kinds : ∀ place node, s.node? place = some node →
    ∃ node', s'.node? place = some node' ∧ (node' = .directory ↔ node = .directory)
  others : ∀ place node, place ∉ touched → s.node? place = some node →
    s'.node? place = some node
  news : ∀ place content, place ∉ touched → s'.node? place = some (.file content) →
    s.node? place = some (.file content)

namespace Evolves

theorem refl (touched : Set Place) (s : Store) : Evolves touched s s where
  root := rfl
  kinds _ node h := ⟨node, h, Iff.rfl⟩
  others _ _ _ h := h
  news _ _ _ h := h

theorem trans (h : Evolves touched s s') (g : Evolves touched s' s'') : Evolves touched s s'' where
  root := g.root.trans h.root
  kinds place node hnode := by
    obtain ⟨node', hnode', hkind⟩ := h.kinds place node hnode
    obtain ⟨node'', hnode'', hkind'⟩ := g.kinds place node' hnode'
    exact ⟨node'', hnode'', hkind'.trans hkind⟩
  others place node hplace hnode := g.others place node hplace (h.others place node hplace hnode)
  news place content hplace hnode :=
    h.news place content hplace (g.news place content hplace hnode)

theorem mono {touched' : Set Place} (h : Evolves touched s s') (hsub : touched ⊆ touched') :
    Evolves touched' s s' where
  root := h.root
  kinds := h.kinds
  others place node hplace := h.others place node fun hmem => hplace (hsub hmem)
  news place content hplace := h.news place content fun hmem => hplace (hsub hmem)

/-- A file that is written where no directory stands. -/
theorem put_file (hplace : s.node? place ≠ some .directory) (content : Content) :
    Evolves {place} s (s.put place (.file content)) where
  root := rfl
  kinds q node hnode := by
    rw [node?_put]
    by_cases hq : q = []
    · subst hq
      exact ⟨_, if_pos rfl, by simp_all⟩
    · rw [if_neg hq]
      by_cases hsame : place = q
      · subst hsame
        exact ⟨_, if_pos rfl, by simp_all⟩
      · exact ⟨node, by rw [if_neg hsame, hnode], Iff.rfl⟩
  others q node hq hnode := by
    have hne : place ≠ q := fun h => hq h.symm
    rw [node?_put, if_neg hne]
    split
    · next hq => rw [← hnode, hq, node?_nil]
    · exact hnode
  news q content hq hnode := by
    have hne : place ≠ q := fun h => hq h.symm
    rw [node?_put, if_neg hne] at hnode
    split at hnode
    · cases hnode
    · exact hnode

/-- A directory that is made where nothing stood. -/
theorem put_directory (hplace : s.node? place = none) :
    Evolves ∅ s (s.put place .directory) := by
  have hsame : ∀ q node, s.node? q = some node → (s.put place .directory).node? q = some node := by
    intro q node hnode
    rw [node?_put]
    split
    · next hq => rw [← hnode, hq, node?_nil]
    · split
      · next hq =>
        rw [hq, hnode] at hplace
        cases hplace
      · exact hnode
  refine ⟨rfl, fun q node hnode => ⟨node, hsame q node hnode, Iff.rfl⟩,
    fun q node _ => hsame q node, fun q content _ hnode => ?_⟩
  rw [node?_put] at hnode
  grind

theorem directory (h : Evolves touched s s') (hdir : s.node? place = some .directory) :
    s'.node? place = some .directory := by
  obtain ⟨node', hnode', hkind⟩ := h.kinds _ _ hdir
  rw [hnode', hkind.2 rfl]

theorem isSome (h : Evolves touched s s') (hsome : (s.node? place).isSome) :
    (s'.node? place).isSome := by
  obtain ⟨node, hnode⟩ := Option.isSome_iff_exists.1 hsome
  obtain ⟨node', hnode', -⟩ := h.kinds _ _ hnode
  simp [hnode']

end Evolves

/-- The content of the file at a place. -/
def file? (s : Store) (place : Place) : Option Content :=
  match s.node? place with
  | some (.file content) => some content
  | _ => none

theorem file?_eq_some_iff {content : Content} :
    s.file? place = some content ↔ s.node? place = some (.file content) := by
  unfold file?
  split
  · next hnode => simp [hnode]
  · next hnode => simpa using hnode content

/-- No file comes up, goes away or changes at a place that is not touched. -/
theorem Evolves.file?_eq (h : Evolves touched s s') (hplace : place ∉ touched) :
    s'.file? place = s.file? place := by
  ext content
  rw [file?_eq_some_iff, file?_eq_some_iff]
  exact ⟨h.news place content hplace, h.others place _ hplace⟩

/-! ## Paths -/

/-- One more segment from a directory down: its own directory, or something that is there. -/
theorem walk_cons_eq_ok_iff {segment : String} {rest : List String} {q : Place} :
    s.walk place (segment :: rest) = .ok q ↔ s.node? place = some .directory ∧
      if segment = ".." then place ≠ [] ∧ s.walk place.dropLast rest = .ok q
      else isTooLong segment = false ∧ (s.node? (place ++ [segment])).isSome = true ∧
        s.walk (place ++ [segment]) rest = .ok q := by
  rw [walk]
  split
  · next h => simp [h]
  · next h => simp [h]
  · next h => grind

theorem walk_append {segments rest : List String} {q : Place} :
    s.walk place (segments ++ rest) = .ok q ↔
      ∃ middle, s.walk place segments = .ok middle ∧ s.walk middle rest = .ok q := by
  induction segments generalizing place with
  | nil => simp [walk]
  | cons segment segments ih =>
    rw [List.cons_append, walk_cons_eq_ok_iff]
    simp only [walk_cons_eq_ok_iff]
    split <;> simp only [ih] <;> grind

theorem Evolves.walk (h : Evolves touched s s') {segments : List String} {q : Place}
    (hwalk : s.walk place segments = .ok q) : s'.walk place segments = .ok q := by
  induction segments generalizing place with
  | nil => exact hwalk
  | cons segment segments ih =>
    obtain ⟨hdir, hwalk⟩ := walk_cons_eq_ok_iff.1 hwalk
    refine walk_cons_eq_ok_iff.2 ⟨h.directory hdir, ?_⟩
    split at hwalk
    · next hup => simpa [hup] using ⟨hwalk.1, ih hwalk.2⟩
    · next hdown => simpa [hdown] using ⟨hwalk.1, h.isSome hwalk.2.1, ih hwalk.2.2⟩

theorem locate_eq_ok_iff : s.locate path = .ok place ↔
    ∃ segments, s.relativeSegments? path = some segments ∧ s.walk [] segments = .ok place ∧
      ∀ content, s.node? place = some (.file content) → path.namesDirectory = false := by
  unfold locate
  cases s.relativeSegments? path with
  | none => simp
  | some segments =>
    simp only [except_bind_eq_ok_iff, Option.some.injEq, exists_eq_left']
    constructor
    · rintro ⟨q, hwalk, h⟩
      split at h
      · split at h
        · exact absurd h except_throw_ne_ok
        · next hnamed =>
          rw [except_pure_eq_ok_iff] at h
          subst h
          exact ⟨hwalk, fun _ _ => by simpa using hnamed⟩
      · next hfile =>
        rw [except_pure_eq_ok_iff] at h
        subst h
        exact ⟨hwalk, fun content hnode => absurd hnode (hfile content)⟩
    · rintro ⟨hwalk, hnamed⟩
      refine ⟨place, hwalk, ?_⟩
      split
      · next content hnode => simp [hnamed content hnode, except_pure_eq_ok_iff]
      · exact except_pure_eq_ok_iff.2 rfl

theorem resolve_eq_ok_iff : s.resolve path = .ok place ↔
    checkPath path = .ok () ∧ s.locate path = .ok place := by
  rw [resolve, except_bind_eq_ok_iff]
  exact ⟨fun ⟨_, hcheck, hlocate⟩ => ⟨hcheck, hlocate⟩, fun ⟨hcheck, hlocate⟩ =>
    ⟨(), hcheck, hlocate⟩⟩

theorem content_eq_ok_iff {content : Content} : s.content path = .ok content ↔
    ∃ place, s.resolve path = .ok place ∧ s.node? place = some (.file content) := by
  unfold Store.content
  rw [except_bind_eq_ok_iff]
  refine exists_congr fun place => and_congr_right fun _ => ?_
  split
  · next hnode => simp [hnode, except_pure_eq_ok_iff]
  · next hnode => simpa using hnode content

theorem relativeSegments?_congr (hroot : s'.root = s.root) (path : Path) :
    s'.relativeSegments? path = s.relativeSegments? path := by
  rw [relativeSegments?, relativeSegments?, hroot]

/-- From the working directory down, a path has the last segments that it has as a whole. -/
theorem suffix_of_relativeSegments? {segments : List String}
    (h : s.relativeSegments? path = some segments) : segments <:+ path.segments := by
  unfold relativeSegments? at h
  split at h
  · dsimp only at h
    split at h
    · cases h
      exact List.drop_suffix _ _
    · cases h
  · cases h
    exact List.suffix_rfl

/-! ### The places of paths -/

/-- The place that segments name from another one on, whatever stands there. -/
def descend? (place : Place) : List String → Option Place
  | [] => some place
  | segment :: rest =>
    if segment = ".." then if place = [] then none else descend? place.dropLast rest
    else descend? (place ++ [segment]) rest

/-- The place that a path names, whatever stands there. -/
def place? (s : Store) (path : Path) : Option Place :=
  (s.relativeSegments? path).bind (descend? [])

/-- The places that some paths name. -/
def placesOf (s : Store) (paths : List Path) : Set Place :=
  {place | ∃ path ∈ paths, s.place? path = some place}

theorem descend?_append (place : Place) (segments rest : List String) :
    descend? place (segments ++ rest) = (descend? place segments).bind (descend? · rest) := by
  induction segments generalizing place with
  | nil => rfl
  | cons segment segments ih =>
    simp only [List.cons_append, descend?]
    split
    · split
      · rfl
      · exact ih _
    · exact ih _

theorem descend?_of_walk {segments : List String} {q : Place}
    (h : s.walk place segments = .ok q) : descend? place segments = some q := by
  induction segments generalizing place with
  | nil => exact congrArg some (Except.ok.inj h)
  | cons segment segments ih =>
    obtain ⟨-, hwalk⟩ := walk_cons_eq_ok_iff.1 h
    rw [descend?]
    split at hwalk
    · next hup => rw [if_pos hup, if_neg hwalk.1, ih hwalk.2]
    · next hdown => rw [if_neg hdown, ih hwalk.2.2]

/-- A path leads nowhere but to the place that it names. -/
theorem place?_of_resolve (h : s.resolve path = .ok place) : s.place? path = some place := by
  obtain ⟨-, hlocate⟩ := resolve_eq_ok_iff.1 h
  obtain ⟨segments, hsegments, hwalk, -⟩ := locate_eq_ok_iff.1 hlocate
  rw [place?, hsegments]
  exact descend?_of_walk hwalk

theorem place?_congr (hroot : s'.root = s.root) (path : Path) :
    s'.place? path = s.place? path := by
  rw [place?, place?, relativeSegments?_congr hroot]

theorem placesOf_congr (hroot : s'.root = s.root) (paths : List Path) :
    s'.placesOf paths = s.placesOf paths := by
  simp only [placesOf, place?_congr hroot]

theorem placesOf_mono {paths paths' : List Path} (h : paths ⊆ paths') :
    s.placesOf paths ⊆ s.placesOf paths' :=
  fun _ ⟨path, hpath, hplace⟩ => ⟨path, h hpath, hplace⟩

theorem Evolves.trans_placesOf {paths : List Path} (h : Evolves (s.placesOf paths) s s')
    (g : Evolves (s'.placesOf paths) s' s'') : Evolves (s.placesOf paths) s s'' :=
  h.trans (placesOf_congr h.root paths ▸ g)

/-- The place that a path names in the working directory has the path's last segment. -/
theorem getLast?_of_place? {name : String} (h : s.place? path = some place) (hplace : place ≠ [])
    (hlast : path.segments.getLast? = some name) (hdown : name ≠ "..") :
    place.getLast? = some name := by
  obtain ⟨segments, hsegments, hdescend⟩ := Option.bind_eq_some_iff.1 h
  obtain ⟨front, hfront⟩ := suffix_of_relativeSegments? hsegments
  cases hrest : segments.getLast? with
  | none =>
    rw [List.getLast?_eq_none_iff.1 hrest] at hdescend
    exact absurd (Option.some.inj hdescend).symm hplace
  | some last =>
    obtain ⟨above, rfl⟩ := List.getLast?_eq_some_iff.1 hrest
    rw [← hfront, ← List.append_assoc, List.getLast?_concat] at hlast
    obtain rfl := Option.some.inj hlast
    rw [descend?_append] at hdescend
    obtain ⟨middle, -, hstep⟩ := Option.bind_eq_some_iff.1 hdescend
    rw [descend?, if_neg hdown] at hstep
    rw [← Option.some.inj hstep, List.getLast?_concat]

/-- A path to a file leads to its last segment. -/
theorem getLast?_of_content {content : Content} {name : String}
    (h : s.content path = .ok content) (hlast : path.segments.getLast? = some name)
    (hdown : name ≠ "..") : ∀ place, s.resolve path = .ok place → place.getLast? = some name := by
  intro place hplace
  obtain ⟨_, hresolve, hnode⟩ := content_eq_ok_iff.1 h
  obtain rfl := Except.ok.inj (hresolve.symm.trans hplace)
  refine getLast?_of_place? (place?_of_resolve hplace) ?_ hlast hdown
  rintro rfl
  simp at hnode

namespace Evolves

theorem resolve (h : Evolves touched s s') (hsome : (s.node? place).isSome)
    (hresolve : s.resolve path = .ok place) : s'.resolve path = .ok place := by
  obtain ⟨hcheck, hlocate⟩ := resolve_eq_ok_iff.1 hresolve
  obtain ⟨segments, hsegments, hwalk, hnamed⟩ := locate_eq_ok_iff.1 hlocate
  refine resolve_eq_ok_iff.2 ⟨hcheck, locate_eq_ok_iff.2 ⟨segments, ?_, h.walk hwalk, ?_⟩⟩
  · rw [relativeSegments?_congr h.root, hsegments]
  · intro content hnode'
    obtain ⟨node, hnode⟩ := Option.isSome_iff_exists.1 hsome
    obtain ⟨_, hsame, hkind⟩ := h.kinds _ _ hnode
    obtain rfl := Option.some.inj (hsame.symm.trans hnode')
    cases node with
    | directory => exact absurd (hkind.2 rfl) (by simp)
    | file old => exact hnamed old hnode

/-- A file that is not touched keeps its content. -/
theorem content (h : Evolves touched s s') {content : Content}
    (hcontent : s.content path = .ok content)
    (hplace : ∀ place, s.resolve path = .ok place → place ∉ touched) :
    s'.content path = .ok content := by
  obtain ⟨place, hresolve, hnode⟩ := content_eq_ok_iff.1 hcontent
  exact content_eq_ok_iff.2 ⟨place, h.resolve (by simp [hnode]) hresolve,
    h.others place _ (hplace place hresolve) hnode⟩

end Evolves

/-! ## New files -/

theorem resolveNew_eq_ok_iff : s.resolveNew path = .ok (some place) ↔
    checkPath path = .ok () ∧ path.pieces.getLast? ≠ some "." ∧
      ∃ above last, s.relativeSegments? path = some (above ++ [last]) ∧ last ≠ ".." ∧
        ∃ directory, s.walk [] above = .ok directory ∧ s.node? directory = some .directory ∧
          place = directory ++ [last] := by
  unfold resolveNew
  rw [except_bind_eq_ok_iff]
  constructor
  · rintro ⟨_, hcheck, h⟩
    split at h
    · next segments hsegments =>
      obtain ⟨directory, hwalk, h⟩ := except_bind_eq_ok_iff.1 h
      by_cases hdot : path.pieces.getLast? = some "."
      · simp only [hdot, if_true] at h
        split at h <;> simp [except_pure_eq_ok_iff] at h
      · simp only [hdot, if_false] at h hwalk
        split at h
        · next last hdir hlast =>
          obtain ⟨above, rfl⟩ := List.getLast?_eq_some_iff.1 hlast
          rw [List.dropLast_concat] at hwalk
          simp only [except_pure_eq_ok_iff, Bool.or_eq_true, decide_eq_true_eq,
            Option.ite_none_left_eq_some, not_or, Option.some.injEq] at h
          obtain ⟨⟨-, hup⟩, rfl⟩ := h
          exact ⟨hcheck, hdot, above, last, hsegments, hup, directory, hwalk, hdir, rfl⟩
        · simp [except_pure_eq_ok_iff] at h
        · exact absurd h except_throw_ne_ok
    · exact absurd h except_throw_ne_ok
  · rintro ⟨hcheck, hdot, above, last, hsegments, hup, directory, hwalk, hdir, rfl⟩
    refine ⟨(), hcheck, ?_⟩
    simp [hsegments, hdot, hwalk, hdir, hup, bind, Except.bind, pure, Except.pure]

theorem create_eq_ok_iff {content : Content} : s.create path content = .ok (place, s') ↔
    s.resolveNew path = .ok (some place) ∧ path.namesDirectory = false ∧
      place.getLast?.any isTooLong = false ∧ s.node? place ≠ some .directory ∧
      s' = s.put place (.file content) := by
  unfold create
  rw [except_bind_eq_ok_iff]
  constructor
  · rintro ⟨new?, hnew, h⟩
    split at h
    · simp only [except_unless_eq_ok_iff, except_pure_eq_ok_iff, Prod.mk.injEq] at h
      obtain ⟨hfile, hshort, hnode, rfl, rfl⟩ := h
      exact ⟨hnew, by simpa using hfile, by simpa using hshort, hnode, rfl⟩
    · exact absurd h except_throw_ne_ok
  · rintro ⟨hnew, hfile, hshort, hnode, rfl⟩
    refine ⟨_, hnew, ?_⟩
    simp only [except_unless_eq_ok_iff, except_pure_eq_ok_iff]
    exact ⟨by simpa using hfile, by simpa using hshort, hnode, trivial⟩

/-- The path of a new file leads to it. -/
theorem resolve_of_create {content : Content} (h : s.create path content = .ok (place, s')) :
    s'.resolve path = .ok place := by
  obtain ⟨hnew, hfile, hshort, hnode, rfl⟩ := create_eq_ok_iff.1 h
  obtain ⟨hcheck, -, above, last, hsegments, hup, directory, hwalk, hdir, rfl⟩ :=
    resolveNew_eq_ok_iff.1 hnew
  have hevolves := Evolves.put_file hnode content
  refine resolve_eq_ok_iff.2
    ⟨hcheck, locate_eq_ok_iff.2 ⟨above ++ [last], ?_, ?_, fun _ _ => hfile⟩⟩
  · rw [relativeSegments?_congr hevolves.root, hsegments]
  · refine walk_append.2 ⟨directory, hevolves.walk hwalk, walk_cons_eq_ok_iff.2
      ⟨hevolves.directory hdir, ?_⟩⟩
    rw [if_neg hup]
    exact ⟨by simpa using hshort, by simp [node?_put], rfl⟩

/-- The place of a new file ends in the last segment of its path. -/
theorem getLast?_of_create {content : Content} (h : s.create path content = .ok (place, s')) :
    place.getLast? = path.segments.getLast? := by
  obtain ⟨hnew, -⟩ := create_eq_ok_iff.1 h
  obtain ⟨-, -, above, last, hsegments, -, directory, -, -, rfl⟩ := resolveNew_eq_ok_iff.1 hnew
  obtain ⟨front, hfront⟩ := suffix_of_relativeSegments? hsegments
  rw [← hfront, ← List.append_assoc, List.getLast?_concat, List.getLast?_concat]

/-- A file that is written gets its content, and nothing else is touched. -/
theorem Evolves.create {content : Content} (h : s.create path content = .ok (place, s')) :
    Evolves {place} s s' := by
  obtain ⟨-, -, -, hnode, rfl⟩ := create_eq_ok_iff.1 h
  exact .put_file hnode content

/-- A new file stands at the place that its path names. -/
theorem place?_of_create {content : Content} (h : s.create path content = .ok (place, s')) :
    s.place? path = some place := by
  rw [← place?_congr (Evolves.create h).root]
  exact place?_of_resolve (resolve_of_create h)

theorem node?_of_create {content : Content} (h : s.create path content = .ok (place, s')) :
    s'.node? place = some (.file content) := by
  obtain ⟨hnew, -, -, -, rfl⟩ := create_eq_ok_iff.1 h
  obtain ⟨-, -, above, last, -, -, directory, -, -, rfl⟩ := resolveNew_eq_ok_iff.1 hnew
  simp [node?_put]

theorem node?_ne_directory_of_create {content : Content}
    (h : s.create path content = .ok (place, s')) : s'.node? place ≠ some .directory := by
  simp [node?_of_create h]

/-- A new file that is filled has the content that it is filled with. -/
theorem content_of_create_put {made : Content} (h : s.create path made = .ok (place, s'))
    (content : Content) : (s'.put place (.file content)).content path = .ok content := by
  have hnode := node?_of_create h
  have hplace : place ≠ [] := by
    rintro rfl
    simp at hnode
  have hfilled := Evolves.put_file (node?_ne_directory_of_create h) content
  refine content_eq_ok_iff.2 ⟨place, hfilled.resolve (by simp [hnode]) (resolve_of_create h), ?_⟩
  simp [node?_put, hplace]

theorem singleton_subset_placesOf (h : s.place? path = some place) :
    {place} ⊆ s.placesOf [path] := by
  rintro q rfl
  exact ⟨path, List.mem_singleton_self path, h⟩

namespace Evolves

/-- A new file stands at the place that its path names. -/
theorem of_create {content : Content} (h : s.create path content = .ok (place, s')) :
    Evolves (s.placesOf [path]) s s' :=
  (Evolves.create h).mono (singleton_subset_placesOf (place?_of_create h))

theorem of_create_put {made : Content} (h : s.create path made = .ok (place, s'))
    (content : Content) : Evolves (s.placesOf [path]) s (s'.put place (.file content)) :=
  (of_create h).trans ((put_file (node?_ne_directory_of_create h) content).mono
    (singleton_subset_placesOf (place?_of_create h)))

end Evolves

theorem copy_eq_ok {source target : Path} (h : s.copy source target = .ok s') :
    ∃ place content made copied, s.resolve source = .ok place ∧
      s.node? place = some (.file content) ∧
      s.create target (.bytes []) = .ok (made, copied) ∧
      s' = if made = place then copied else copied.put made (.file content) := by
  obtain ⟨place, hplace, h⟩ := except_bind_eq_ok_iff.1 h
  dsimp only at h
  split at h
  · next content hnode =>
    obtain ⟨⟨made, copied⟩, hmade, h⟩ := except_bind_eq_ok_iff.1 h
    rw [except_pure_eq_ok_iff] at h
    exact ⟨place, content, made, copied, hplace, hnode, hmade, h.symm⟩
  · exact absurd h except_throw_ne_ok

/-- A file that is copied under another name gets the content of the source. -/
theorem content_of_copy {source target : Path} {content : Content} {name : String}
    (h : s.copy source target = .ok s') (hcontent : s.content source = .ok content)
    (hlast : source.segments.getLast? = some name) (hdown : name ≠ "..")
    (hne : target.segments.getLast? ≠ some name) : s'.content target = .ok content := by
  obtain ⟨place, _, made, copied, hresolve, hsource, hmade, rfl⟩ := copy_eq_ok h
  obtain ⟨_, hresolve', hnode'⟩ := content_eq_ok_iff.1 hcontent
  obtain rfl := Except.ok.inj (hresolve.symm.trans hresolve')
  obtain rfl : _ = content := by simpa using hsource.symm.trans hnode'
  have hplace : made ≠ place := by
    rintro rfl
    exact hne (getLast?_of_create hmade ▸ getLast?_of_content hcontent hlast hdown made hresolve)
  rw [if_neg hplace]
  exact content_of_create_put hmade _

/-- Copying a file touches the place that the path of the copy names. -/
theorem Evolves.copy {source target : Path} (h : s.copy source target = .ok s') :
    Evolves (s.placesOf [target]) s s' := by
  obtain ⟨place, content, made, copied, -, -, hmade, rfl⟩ := copy_eq_ok h
  split
  · exact .of_create hmade
  · exact .of_create_put hmade _

/-! ## New directories -/

theorem Evolves.makeDirectory (h : s.makeDirectory path = .ok s') : Evolves ∅ s s' := by
  unfold Store.makeDirectory at h
  obtain ⟨new?, -, h⟩ := except_bind_eq_ok_iff.1 h
  split at h
  · simp only [except_unless_eq_ok_iff, except_pure_eq_ok_iff] at h
    obtain ⟨-, hnode, rfl⟩ := h
    exact .put_directory (by simpa using hnode)
  · exact absurd h except_throw_ne_ok

theorem Evolves.ensureDirectory (h : s.ensureDirectory path = .ok s') : Evolves ∅ s s' := by
  unfold Store.ensureDirectory at h
  split at h
  · next hmade =>
    cases h
    exact .makeDirectory hmade
  · split at h
    · cases h
      exact .refl ∅ s
    · cases h

theorem Evolves.makeDirectoriesUpTo (bound : Nat) (path : Path) (s : Store) :
    Evolves ∅ s (stateAfter (Store.makeDirectoriesUpTo bound path) s) := by
  induction bound generalizing path s with
  | zero => exact .refl ∅ s
  | succ bound ih =>
    rw [stateAfter]
    generalize hrun : Store.makeDirectoriesUpTo (bound + 1) path s = result
    rw [Store.makeDirectoriesUpTo] at hrun
    split at hrun
    · exact hrun ▸ .refl ∅ s
    · dsimp only at hrun
      split at hrun
      · next hmade => exact hrun ▸ .makeDirectory hmade
      · next parent _ _ =>
        have habove := ih parent s
        split at hrun
        · next hstop => exact hrun ▸ stateAfter_of_error hstop ▸ habove
        · next above hdone =>
          rw [stateAfter_of_ok hdone] at habove
          split at hrun
          · next hmade => exact hrun ▸ habove.trans (.ensureDirectory hmade)
          · exact hrun ▸ habove
      · split at hrun <;> exact hrun ▸ .refl ∅ s

/-- Making directories leaves everything that was there. -/
theorem Evolves.makeDirectories (path : Path) (s : Store) :
    Evolves ∅ s (stateAfter (Store.makeDirectories path) s) :=
  .makeDirectoriesUpTo _ path s

theorem makeDirectories_empty (s : Store) : Store.makeDirectories "" s = .ok () s := by
  simp [Store.makeDirectories, Store.makeDirectoriesUpTo]

/-! ## Files in the working directory -/

/-- A name that a file in the working directory can have. -/
structure IsFileName (name : String) : Prop where
  segment : Path.IsSegment name
  down : name ≠ ".."
  short : name.utf8ByteSize ≤ 255
  text : name.contains (Char.ofNat 0) = false

namespace IsFileName

variable {name : String}

theorem checkPath (h : IsFileName name) : checkPath name = .ok () := by
  have hempty : name.isEmpty = false := by simpa using h.segment.2.1
  have hlong : ¬ 4095 < name.utf8ByteSize := by have := h.short; omega
  simp [Store.checkPath, checkText, h.text, hempty, hlong, bind, Except.bind, pure, Except.pure]

theorem relativeSegments? (h : IsFileName name) : s.relativeSegments? name = some [name] := by
  simp [Store.relativeSegments?, h.segment.isAbsolute, h.segment.segments]

theorem place? (h : IsFileName name) : s.place? name = some [name] := by
  simp [Store.place?, h.relativeSegments?, descend?, h.down]

theorem namesDirectory (h : IsFileName name) : Path.namesDirectory name = false := by
  simp [Path.namesDirectory, h.segment.pieces, h.segment.2.1, h.segment.2.2]

theorem parent? (h : IsFileName name) : Path.parent? name = some "" := by
  simp [Path.parent?, h.segment.pieces, Path.countedPieces, h.segment.2.1, h.segment.isAbsolute]

theorem isTooLong (h : IsFileName name) : isTooLong name = false := by
  simpa [Store.isTooLong] using h.short

theorem resolve (h : IsFileName name) (hnode : (s.node? [name]).isSome) :
    s.resolve name = .ok [name] := by
  refine resolve_eq_ok_iff.2 ⟨h.checkPath, locate_eq_ok_iff.2
    ⟨[name], h.relativeSegments?, walk_cons_eq_ok_iff.2 ⟨node?_nil, ?_⟩, fun _ _ =>
      h.namesDirectory⟩⟩
  rw [if_neg h.down]
  exact ⟨h.isTooLong, hnode, rfl⟩

theorem content (h : IsFileName name) {content : Content}
    (hnode : s.node? [name] = some (.file content)) : s.content name = .ok content :=
  content_eq_ok_iff.2 ⟨[name], h.resolve (by simp [hnode]), hnode⟩

theorem create (h : IsFileName name) (hnode : s.node? [name] ≠ some .directory)
    (content : Content) :
    s.create name content = .ok ([name], s.put [name] (.file content)) := by
  refine create_eq_ok_iff.2 ⟨resolveNew_eq_ok_iff.2 ⟨h.checkPath, ?_, [], name,
    h.relativeSegments?, h.down, [], rfl, node?_nil, rfl⟩, h.namesDirectory, ?_, hnode, rfl⟩
  · simpa [h.segment.pieces] using h.segment.2.2
  · simpa using h.isTooLong

theorem copy {target : String} (h : IsFileName name) (htarget : IsFileName target)
    (hne : name ≠ target) {content : Content} (hnode : s.node? [name] = some (.file content))
    (hdir : s.node? [target] ≠ some .directory) :
    s.copy name target =
      .ok ((s.put [target] (.file (.bytes []))).put [target] (.file content)) := by
  have hplace := h.resolve (s := s) (by simp [hnode])
  simp [Store.copy, hplace, hnode, htarget.create hdir, hne.symm, bind, Except.bind, pure,
    Except.pure]

end IsFileName

end Store

end JarRefit.Files
