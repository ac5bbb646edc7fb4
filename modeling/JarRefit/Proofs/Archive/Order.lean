import JarRefit.Proofs.Archive.Entrywise
import JarRefit.Proofs.Renaming.Agreement
import JarRefit.Proofs.Renaming.Unchanged

/-!
# The order of entries

Where no two class files of an archive declare the same class, the hierarchy that they declare does
not depend on their order, and so neither does what is written for each of them.

## Main definitions

* `Entry.Declares`: an entry has the file of a class.
* `DistinctClasses`: no class has two files.
-/
namespace JarRefit.Archive

open ClassFile Files Naming Renaming

/-- The entry has the file of a class that tells its name. -/
def Entry.Declares (e : Entry) (name : String) : Prop :=
  e.isClass = true ∧ ∃ c, decode e.data = .ok c ∧ c.name = .ok name

/-- No class has two files. -/
def DistinctClasses (entries : List Entry) : Prop :=
  entries.Pairwise fun e e' => ∀ name, e.Declares name → ¬ e'.Declares name

theorem DistinctClasses.perm {entries entries' : List Entry} (hperm : entries.Perm entries') :
    DistinctClasses entries ↔ DistinctClasses entries' :=
  hperm.pairwise_iff fun h name hname' hname => h name hname hname'

variable {e : Entry} {entries entries' : List Entry} {name : String} {parents : List String}

/-! ## The hierarchy of an archive -/

theorem declares_of_entryParents (h : entryParents e = .ok (some (name, parents))) :
    e.Declares name := by
  unfold entryParents at h
  split at h
  · next hcls =>
    cases hdeclared : (decode e.data >>= declaredParents) with
    | error fault =>
      rw [hdeclared] at h
      cases h
    | ok declared =>
      rw [hdeclared] at h
      cases h
      obtain ⟨c, hdecode, hrest⟩ := except_bind_eq_ok_iff.1 hdeclared
      obtain ⟨_, -, hrest⟩ := except_bind_eq_ok_iff.1 hrest
      obtain ⟨_, -, hrest⟩ := except_bind_eq_ok_iff.1 hrest
      obtain ⟨_, hname, hrest⟩ := except_bind_eq_ok_iff.1 hrest
      cases hrest
      exact ⟨hcls, c, hdecode, hname⟩
  · cases h

theorem parentTable_concat (entries : List Entry) (e : Entry) :
    parentTable (entries ++ [e]) =
      match entryParents e with
      | .ok (some (name, parents)) => (parentTable entries).insert name parents
      | _ => parentTable entries := by
  rw [parentTable, List.foldl_concat]
  rfl

/-- The table has the parents that some entry declares. -/
theorem getElem?_parentTable (h : DistinctClasses entries) :
    (parentTable entries)[name]? = some parents ↔
      ∃ e ∈ entries, entryParents e = .ok (some (name, parents)) := by
  induction entries using List.reverseRecOn with
  | nil => simp [parentTable]
  | append_singleton entries e ih =>
    obtain ⟨hdistinct, -, hlast⟩ := List.pairwise_append.1 h
    rw [parentTable_concat]
    simp only [List.mem_append, List.mem_singleton, or_and_right, exists_or, exists_eq_left]
    split
    · next declared parents' he =>
      rw [Std.HashMap.getElem?_insert, he]
      by_cases hname : declared = name
      · subst hname
        have hnone : ¬ ∃ x ∈ entries, entryParents x = .ok (some (declared, parents)) := by
          rintro ⟨x, hx, hparents⟩
          exact hlast x hx e (by simp) declared (declares_of_entryParents hparents)
            (declares_of_entryParents he)
        simp [hnone]
      · simp [hname, ih hdistinct]
    · next hother =>
      have hnone : entryParents e ≠ .ok (some (name, parents)) := hother name parents
      simp [hnone, ih hdistinct]

theorem getElem?_parentTable_perm (hperm : entries.Perm entries') (h : DistinctClasses entries)
    (name : String) : (parentTable entries)[name]? = (parentTable entries')[name]? := by
  ext parents
  rw [getElem?_parentTable h, getElem?_parentTable ((DistinctClasses.perm hperm).1 h)]
  simp only [hperm.mem_iff]

/-- The order of the entries has no part in the new names. -/
theorem agrees_archiveJob (hperm : entries.Perm entries') (h : DistinctClasses entries)
    (mapping : SymbolMapping) (access : Access.Table) :
    (archiveJob mapping access entries).mapping.Agrees
      (archiveJob mapping access entries').mapping :=
  SymbolMapping.agrees_of_parents fun cls => by
    simp [Hierarchy.parents, Hierarchy.parents?, getElem?_parentTable_perm hperm h]

/-! ## Runs over entries in another order -/

variable {job job' : RenamingJob} {out : List Entry}

/-- Jobs that give the same new names and the same access make the same of an entry. -/
theorem RenamingJob.Makes.congr (h : job.Makes e out)
    (hmapping : job.mapping.Agrees job'.mapping) (haccess : job.access = job'.access)
    (hcopy : job.copyDirectories = job'.copyDirectories) : job'.Makes e out := by
  cases h with
  | directory hdir hkeep => exact .directory hdir (hcopy ▸ hkeep)
  | nothing hdir hdrop => exact .nothing hdir (hcopy ▸ hdrop)
  | resource hres => exact .resource hres
  | cls hcls hdecode hrewrites =>
    obtain ⟨hname, renamed, hrename, hwiden⟩ := hrewrites
    rw [hmapping.rename, hmapping.classes] at hrename
    rw [hmapping.classes]
    exact .cls hcls hdecode ⟨hname, renamed, hrename, haccess ▸ hwiden⟩

theorem makes_archiveJob_perm (hperm : entries.Perm entries') (hdistinct : DistinctClasses entries)
    {mapping : SymbolMapping} {access : Access.Table}
    (h : (archiveJob mapping access entries).Makes e out) :
    (archiveJob mapping access entries').Makes e out :=
  h.congr (agrees_archiveJob hperm hdistinct mapping access) rfl rfl

theorem RenamingJob.flatten_eq_flatMap {outs : List (List Entry)} {made : Entry → List Entry}
    (h : List.Forall₂ job.Makes entries outs) (hmade : ∀ e ∈ entries, job.Makes e (made e)) :
    outs.flatten = entries.flatMap made := by
  induction h with
  | nil => rfl
  | cons hmakes _ ih =>
    rw [List.forall_mem_cons] at hmade
    rw [List.flatten_cons, List.flatMap_cons, hmakes.unique hmade.1, ih hmade.2]

variable {w v w' v' : World} {input output input' output' : Path} {mapping : SymbolMapping}
  {access : Access.Table} {done done' : RenamingState}

theorem renameArchive_ok_perm (hinput : w.store.content input = .ok (.archive entries))
    (hinput' : v.store.content input' = .ok (.archive entries'))
    (hready : Ready w input output entries) (hready' : Ready v input' output' entries')
    (hperm : entries.Perm entries') (hdistinct : DistinctClasses entries) :
    (∃ done w', renameArchive mapping access input output w = .ok done w') ↔
      ∃ done v', renameArchive mapping access input' output' v = .ok done v' := by
  rw [renameArchive_ok_iff hinput hready, renameArchive_ok_iff hinput' hready']
  simp only [← RenamingJob.exists_makes_iff]
  have hdistinct' := (DistinctClasses.perm hperm).1 hdistinct
  constructor
  · intro h e he
    obtain ⟨out, hmakes⟩ := h e (hperm.mem_iff.2 he)
    exact ⟨out, makes_archiveJob_perm hperm hdistinct hmakes⟩
  · intro h e he
    obtain ⟨out, hmakes⟩ := h e (hperm.mem_iff.1 he)
    exact ⟨out, makes_archiveJob_perm hperm.symm hdistinct' hmakes⟩

/-- Renaming does not depend on the order of the entries. It succeeds for all orders or for none,
and each output has, in the order of its input, the same for each entry. -/
theorem renameArchive_perm (hinput : w.store.content input = .ok (.archive entries))
    (hinput' : v.store.content input' = .ok (.archive entries'))
    (hready : Ready w input output entries) (hready' : Ready v input' output' entries')
    (hperm : entries.Perm entries') (hdistinct : DistinctClasses entries) :
    ((∃ done w', renameArchive mapping access input output w = .ok done w') ↔
      ∃ done v', renameArchive mapping access input' output' v = .ok done v') ∧
    ∀ done w' done' v', renameArchive mapping access input output w = .ok done w' →
      renameArchive mapping access input' output' v = .ok done' v' →
      ∃ made : Entry → List Entry,
        (∀ e ∈ entries, (archiveJob mapping access entries).Makes e (made e)) ∧
        w'.store.content output = .ok (.archive ((entries.flatMap made).map Entry.stored)) ∧
        v'.store.content output' = .ok (.archive ((entries'.flatMap made).map Entry.stored)) := by
  refine ⟨renameArchive_ok_perm hinput hinput' hready hready' hperm hdistinct,
    fun done w' done' v' h h' => ?_⟩
  obtain ⟨outs, hall, hcontent⟩ := renameArchive_output hinput h
  obtain ⟨outs', hall', hcontent'⟩ := renameArchive_output hinput' h'
  have hmakes (e : Entry) (he : e ∈ entries) :
      ∃ out, (archiveJob mapping access entries).Makes e out :=
    RenamingJob.exists_makes_iff.2 (RenamingJob.exists_makes_all_iff.1 ⟨outs, hall⟩ e he)
  choose! made hmade using hmakes
  have hmade' (e : Entry) (he : e ∈ entries') :
      (archiveJob mapping access entries').Makes e (made e) :=
    makes_archiveJob_perm hperm hdistinct (hmade e (hperm.mem_iff.2 he))
  rw [RenamingJob.flatten_eq_flatMap hall hmade] at hcontent
  rw [RenamingJob.flatten_eq_flatMap hall' hmade'] at hcontent'
  exact ⟨made, hmade, hcontent, hcontent'⟩

/-! ### Classes without members -/

theorem renameClass_archiveJob_empty (entries : List Entry) (name : String) :
    (archiveJob .empty .empty entries).mapping.renameClass name = name := by
  simp [archiveJob, SymbolMapping.renameClass_withHierarchy, SymbolMapping.renameClass_empty]

/-- A class of which there is nothing but its name. -/
def bareClass (name : String) : ClassFile where
  minorVersion := 0
  majorVersion := 52
  pool := ⟨#[.unusable, .utf8 (Utf8.encode name), .classRef 1]⟩
  access := ⟨1⟩
  thisClass := 2
  superClass := 0
  interfaces := []
  fields := []
  methods := []
  attributes := []

theorem name_bareClass (name : String) : (bareClass name).name = .ok name := by
  simp [ClassFile.name, bareClass, ConstantPool.className_eq_ok_iff, ConstantPool.text_eq_ok_iff]

theorem plan_bareClass {m : SymbolMapping} (harray : PoolEdit.isArrayName name = false)
    (hname : m.renameClass name = name) : PoolEdit.plan m (bareClass name).pool = .ok [] := by
  simp [PoolEdit.plan, bareClass, ConstantPool.entries, PoolEdit.planEntry, ConstantPool.text,
    ConstantPool.get, bind, Except.bind, pure, Except.pure, Utf8.decode?_encode,
    PoolEdit.newClassName, harray, hname]

theorem rename_bareClass {m : SymbolMapping} (harray : PoolEdit.isArrayName name = false)
    (hname : m.renameClass name = name) :
    (bareClass name).rename m = .ok name (bareClass name) := by
  have hplan := plan_bareClass harray hname
  have haddressable : (bareClass name).pool.Addressable := show 3 ≤ 65536 by decide
  have hrename := rename_eq_self haddressable (name_bareClass name) hplan rfl
  rwa [hname] at hrename

/-- There is nothing to widen in a class without members but the class itself. -/
theorem widen_of_memberless {c : ClassFile} (hname : c.name = .ok name) (hfields : c.fields = [])
    (hmethods : c.methods = []) : c.widen .empty = .ok () c := by
  refine widen_empty hname fun kind d hd => ?_
  cases kind <;> simp [members, hfields, hmethods] at hd

/-- A file of a class of which there is nothing but its name. -/
def bareFile (path name : String) : Entry :=
  .file path (bareClass name).encode heirTime

theorem makes_bareFile {path : String} (entries : List Entry)
    (hcls : (bareFile path name).isClass = true) (harray : PoolEdit.isArrayName name = false)
    (hdecode : decode (bareClass name).encode = .ok (bareClass name)) :
    (archiveJob .empty .empty entries).Makes (bareFile path name)
      [bareFile (name ++ classSuffix) name] := by
  have hname := renameClass_archiveJob_empty entries name
  exact .of_unchanged hcls hdecode (name_bareClass name) hname (rename_bareClass harray hname)
    (widen_of_memberless (name_bareClass name) rfl rfl)

theorem eq_of_declares_bareFile {path other : String}
    (hdecode : decode (bareClass name).encode = .ok (bareClass name))
    (h : (bareFile path name).Declares other) : other = name := by
  obtain ⟨-, c, hc, hother⟩ := h
  obtain rfl := Except.ok.inj (hdecode.symm.trans hc)
  exact Except.ok.inj (hother.symm.trans (name_bareClass name))

theorem distinctClasses_bareFiles {path path' name' : String}
    (hdecode : decode (bareClass name).encode = .ok (bareClass name))
    (hdecode' : decode (bareClass name').encode = .ok (bareClass name')) (hne : name ≠ name') :
    DistinctClasses [bareFile path name, bareFile path' name'] :=
  List.pairwise_pair.2 fun _ h h' =>
    hne ((eq_of_declares_bareFile hdecode h).symm.trans (eq_of_declares_bareFile hdecode' h'))

/-- Two classes, in one order and in the other. -/
theorem renameArchive_perm_bareFiles :
    let entries := [bareFile "f.class" "f", bareFile "g.class" "g"]
    let entries' := [bareFile "g.class" "g", bareFile "f.class" "f"]
    Ready (holding "in.jar" entries) "in.jar" "out.jar" entries ∧
      Ready (holding "in.jar" entries') "in.jar" "out.jar" entries' ∧
      entries.Perm entries' ∧ DistinctClasses entries ∧
      ∃ done w' done' v',
        renameArchive .empty .empty "in.jar" "out.jar" (holding "in.jar" entries) = .ok done w' ∧
        renameArchive .empty .empty "in.jar" "out.jar" (holding "in.jar" entries') =
          .ok done' v' ∧
        w'.store.content "out.jar" = .ok (.archive entries) ∧
        v'.store.content "out.jar" = .ok (.archive entries') := by
  intro entries entries'
  have hready := ready_holding isFileName_input isFileName_output (by decide) entries
  have hready' := ready_holding isFileName_input isFileName_output (by decide) entries'
  have hperm : entries.Perm entries' := .swap ..
  have hdistinct : DistinctClasses entries := distinctClasses_bareFiles rfl rfl (by decide)
  have hf : (archiveJob .empty .empty entries).Makes (bareFile "f.class" "f")
      [bareFile "f.class" "f"] := makes_bareFile entries (by decide) (by decide) rfl
  have hg : (archiveJob .empty .empty entries).Makes (bareFile "g.class" "g")
      [bareFile "g.class" "g"] := makes_bareFile entries (by decide) (by decide) rfl
  obtain ⟨hok, hsame⟩ := renameArchive_perm (content_holding isFileName_input entries)
    (content_holding isFileName_input entries') hready hready' hperm hdistinct
  obtain ⟨done, w', hrun, -⟩ := renameArchive_holding isFileName_input isFileName_output (by decide)
    (.cons hf (.cons hg .nil))
  obtain ⟨done', v', hrun'⟩ := hok.1 ⟨done, w', hrun⟩
  obtain ⟨made, hmade, hcontent, hcontent'⟩ := hsame done w' done' v' hrun hrun'
  have hmadef : made (bareFile "f.class" "f") = [bareFile "f.class" "f"] :=
    (hmade _ (by simp [entries])).unique hf
  have hmadeg : made (bareFile "g.class" "g") = [bareFile "g.class" "g"] :=
    (hmade _ (by simp [entries])).unique hg
  have hstored : (bareFile "f.class" "f").stored = bareFile "f.class" "f" ∧
      (bareFile "g.class" "g").stored = bareFile "g.class" "g" := by decide
  refine ⟨hready, hready', hperm, hdistinct, done, w', done', v', hrun, hrun', ?_, ?_⟩
  · simpa [entries, hmadef, hmadeg, hstored] using hcontent
  · simpa [entries', hmadef, hmadeg, hstored] using hcontent'

end JarRefit.Archive
