import JarRefit.Proofs.Archive.Order

/-!
# The names of written entries

A class file is written under the new name of the class that it declares, wherever it stood. So
what is written has distinct names just if no class has two files.

## Main definitions

* `storedNames`: the names under which a container keeps entries.
-/
namespace JarRefit.Archive

open ClassFile Files Naming

variable {job : RenamingJob} {e e' : Entry} {out out' entries : List Entry} {name : String}

/-- The names under which a container keeps entries. -/
def storedNames (entries : List Entry) : List String :=
  (entries.map Entry.stored).map Entry.name

theorem not_isResource_of_name (hname : e.name = name ++ classSuffix) : e.isResource = false := by
  cases hdir : e.isDirectory with
  | true => simp [Entry.isResource, hdir]
  | false => simp [Entry.isResource, Entry.isClass_iff.2 ⟨hdir, name, hname⟩]

namespace RenamingJob

/-- What is written for an entry has the name of another file, or the new name of the class that a
class file declares. -/
theorem Makes.mem_storedNames_iff (h : job.Makes e out) (hcopy : job.copyDirectories = false) :
    name ∈ storedNames out ↔ e.isResource = true ∧ name = e.name ∨
      ∃ owner, e.Declares owner ∧ name = job.mapping.renameClass owner ++ classSuffix := by
  cases h with
  | directory hdir hkeep => simp [hkeep] at hcopy
  | nothing hdir =>
    simp [storedNames, Entry.isResource, Entry.Declares, Entry.isClass, hdir]
  | resource hres =>
    obtain ⟨hdir, hcls⟩ : e.isDirectory = false ∧ e.isClass = false := by
      simpa [Entry.isResource] using hres
    simp [storedNames, Entry.Declares, hres, hcls, Entry.name_stored hdir]
  | @cls c c' owner hcls hdecode hrewrites =>
    have hres : e.isResource = false := by simp [Entry.isResource, hcls]
    have hdeclares (other : String) : e.Declares other ↔ other = owner := by
      simp [Entry.Declares, hcls, hdecode, hrewrites.name, eq_comm]
    simp [storedNames, hres, hdeclares, Entry.name_stored, Entry.file]

theorem Makes.nodup_storedNames (h : job.Makes e out) : (storedNames out).Nodup := by
  cases h <;> simp [storedNames]

/-- What is written for two entries collides just if they declare the same class. -/
theorem disjoint_storedNames_iff (h : job.Makes e out) (h' : job.Makes e' out')
    (hcopy : job.copyDirectories = false) (hne : e.name ≠ e'.name)
    (hinj : ∀ name name', e.Declares name → e'.Declares name' →
      job.mapping.renameClass name = job.mapping.renameClass name' → name = name') :
    (storedNames out).Disjoint (storedNames out') ↔
      ∀ name, e.Declares name → ¬ e'.Declares name := by
  simp only [List.disjoint_left, h.mem_storedNames_iff hcopy, h'.mem_storedNames_iff hcopy]
  constructor
  · intro hdisjoint name hname hname'
    exact hdisjoint (.inr ⟨name, hname, rfl⟩) (.inr ⟨name, hname', rfl⟩)
  · rintro hdistinct name (⟨hres, rfl⟩ | ⟨owner, howner, rfl⟩)
      (⟨hres', hsame⟩ | ⟨owner', howner', hsame⟩)
    · exact hne hsame
    · simp [not_isResource_of_name hsame] at hres
    · simp [not_isResource_of_name hsame.symm] at hres'
    · have hrenamed : job.mapping.renameClass owner = job.mapping.renameClass owner' := by
        simpa using hsame
      exact hdistinct owner howner (hinj owner owner' howner howner' hrenamed ▸ howner')

theorem nodup_storedNames_iff {made : Entry → List Entry}
    (hmade : ∀ e ∈ entries, job.Makes e (made e)) (hcopy : job.copyDirectories = false)
    (hnames : (entries.map Entry.name).Nodup)
    (hinj : Set.InjOn job.mapping.renameClass {name | ∃ e ∈ entries, e.Declares name}) :
    (storedNames (entries.flatMap made)).Nodup ↔ DistinctClasses entries := by
  have hflat : storedNames (entries.flatMap made) =
      entries.flatMap fun e => storedNames (made e) := by
    simp [storedNames, List.map_flatMap]
  have hpairs {i j : Nat} (hi : i < entries.length) (hj : j < entries.length) (hij : i < j) :
      (storedNames (made entries[i])).Disjoint (storedNames (made entries[j])) ↔
        ∀ name, entries[i].Declares name → ¬ entries[j].Declares name := by
    refine disjoint_storedNames_iff (hmade _ (by simp)) (hmade _ (by simp)) hcopy ?_ ?_
    · exact List.pairwise_iff_getElem.1 (List.pairwise_map.1 hnames) i j hi hj hij
    · intro name name' hname hname' hrenamed
      exact hinj ⟨_, by simp, hname⟩ ⟨_, by simp, hname'⟩ hrenamed
  rw [hflat, List.nodup_flatMap, and_iff_right fun e he => (hmade e he).nodup_storedNames,
    DistinctClasses, List.pairwise_iff_getElem, List.pairwise_iff_getElem]
  exact forall_congr' fun i => forall_congr' fun j => forall_congr' fun hi =>
    forall_congr' fun hj => forall_congr' fun hij => hpairs hi hj hij

end RenamingJob

/-! ## A run -/

/-- Where each class file has the name of the class that it declares, no class has two files. -/
theorem distinctClasses_of_names (hnames : (entries.map Entry.name).Nodup)
    (hown : ∀ e ∈ entries, ∀ name, e.Declares name → e.name = name ++ classSuffix) :
    DistinctClasses entries := by
  refine (List.pairwise_map.1 hnames).imp_of_mem fun he he' hne name hname hname' => ?_
  exact hne ((hown _ he name hname).trans (hown _ he' name hname').symm)

variable {w w' : World} {input output : Path} {mapping : SymbolMapping} {access : Access.Table}
  {done : RenamingState}

/-- Renaming an archive whose entries have distinct names, with distinct new names for its classes,
gives entries with distinct names just if no class has two files: what is written for a class is
told apart by the class alone, not by the entry that it came from. -/
theorem renameArchive_names_nodup_iff (hinput : w.store.content input = .ok (.archive entries))
    (hrun : renameArchive mapping access input output w = .ok done w')
    (hnames : (entries.map Entry.name).Nodup)
    (hinj : Set.InjOn mapping.renameClass {name | ∃ e ∈ entries, e.Declares name}) :
    ∃ written, w'.store.content output = .ok (.archive written) ∧
      ((written.map Entry.name).Nodup ↔ DistinctClasses entries) := by
  obtain ⟨outs, hall, hcontent⟩ := renameArchive_output hinput hrun
  have hmakes (e : Entry) (he : e ∈ entries) :
      ∃ out, (archiveJob mapping access entries).Makes e out :=
    RenamingJob.exists_makes_iff.2 (RenamingJob.exists_makes_all_iff.1 ⟨outs, hall⟩ e he)
  choose! made hmade using hmakes
  rw [RenamingJob.flatten_eq_flatMap hall hmade] at hcontent
  refine ⟨_, hcontent, RenamingJob.nodup_storedNames_iff hmade rfl hnames ?_⟩
  rwa [archiveJob, SymbolMapping.renameClass_withHierarchy]

/-- Two classes, of which one does not stand in the place that its name tells. -/
theorem renameArchive_names_nodup_bareFiles :
    let entries := [bareFile "lib/f.class" "f", bareFile "g.class" "g"]
    (entries.map Entry.name).Nodup ∧
      Set.InjOn SymbolMapping.empty.renameClass {name | ∃ e ∈ entries, e.Declares name} ∧
      ∃ done w' written,
        (holding "in.jar" entries).store.content "in.jar" = .ok (.archive entries) ∧
        renameArchive .empty .empty "in.jar" "out.jar" (holding "in.jar" entries) = .ok done w' ∧
        w'.store.content "out.jar" = .ok (.archive written) ∧ (written.map Entry.name).Nodup := by
  intro entries
  have hf : (archiveJob .empty .empty entries).Makes (bareFile "lib/f.class" "f")
      [bareFile "f.class" "f"] := makes_bareFile entries (by decide) (by decide) rfl
  have hg : (archiveJob .empty .empty entries).Makes (bareFile "g.class" "g")
      [bareFile "g.class" "g"] := makes_bareFile entries (by decide) (by decide) rfl
  have hnames : (entries.map Entry.name).Nodup := by decide
  have hinj : Set.InjOn SymbolMapping.empty.renameClass
      {name | ∃ e ∈ entries, e.Declares name} := SymbolMapping.renameClass_empty_injective.injOn
  have hinput := content_holding isFileName_input entries
  obtain ⟨done, w', hrun, -⟩ := renameArchive_holding isFileName_input isFileName_output (by decide)
    (.cons hf (.cons hg .nil))
  obtain ⟨written, hwritten, hiff⟩ := renameArchive_names_nodup_iff hinput hrun hnames hinj
  exact ⟨hnames, hinj, done, w', written, hinput, hrun, hwritten,
    hiff.2 (distinctClasses_bareFiles rfl rfl (by decide))⟩

/-- Renaming nothing can make two entries collide: of two versions of a class, both are written
under the name of the class. -/
theorem not_nodup_renameArchive :
    let entries := [bareFile "f.class" "f", bareFile "META-INF/versions/9/f.class" "f"]
    (entries.map Entry.name).Nodup ∧
      Set.InjOn SymbolMapping.empty.renameClass {name | ∃ e ∈ entries, e.Declares name} ∧
      ∃ done w' written,
        renameArchive .empty .empty "in.jar" "out.jar" (holding "in.jar" entries) = .ok done w' ∧
        w'.store.content "out.jar" = .ok (.archive written) ∧
        ¬ (written.map Entry.name).Nodup := by
  intro entries
  have hf : (archiveJob .empty .empty entries).Makes (bareFile "f.class" "f")
      [bareFile "f.class" "f"] := makes_bareFile entries (by decide) (by decide) rfl
  have hversion : (archiveJob .empty .empty entries).Makes
      (bareFile "META-INF/versions/9/f.class" "f") [bareFile "f.class" "f"] :=
    makes_bareFile entries (by decide) (by decide) rfl
  obtain ⟨done, w', hrun, hcontent⟩ := renameArchive_holding isFileName_input isFileName_output
    (by decide) (.cons hf (.cons hversion .nil))
  exact ⟨by decide, SymbolMapping.renameClass_empty_injective.injOn, done, w', _, hrun, hcontent,
    by decide⟩

end JarRefit.Archive
