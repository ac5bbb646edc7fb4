import JarRefit.Proofs.Archive.File
import JarRefit.Proofs.Renaming.Representable

/-!
# What renaming an archive writes

A run succeeds just if every class file can be renamed by itself, and ends with the fault of the
first one that cannot. The output then has what is made of each entry, in the order of the input,
and every entry of the input is counted once.

## Main definitions

* `RenamingJob.Accepts`: an entry whose class file can be read, renamed and widened.
-/
namespace JarRefit.Archive

open ClassFile Files

variable {job : RenamingJob} {e : Entry} {out : List Entry} {entries : List Entry}

namespace RenamingJob

/-- A class file that can be read, renamed and widened. -/
def Accepts (job : RenamingJob) (e : Entry) : Prop :=
  ∃ c owner c', decode e.data = .ok c ∧ job.Rewrites c owner c'

theorem Makes.accepts (h : job.Makes e out) (hcls : e.isClass = true) : job.Accepts e := by
  cases h with
  | directory hdir | nothing hdir => simp [Entry.isClass, hdir] at hcls
  | resource hres => simp [Entry.isResource, hcls] at hres
  | cls _ hdecode hrewrites => exact ⟨_, _, _, hdecode, hrewrites⟩

theorem Accepts.makes (h : job.Accepts e) (hcls : e.isClass = true) : ∃ out, job.Makes e out := by
  obtain ⟨c, owner, c', hdecode, hrewrites⟩ := h
  exact ⟨_, .cls hcls hdecode hrewrites⟩

theorem Stops.isClass {fault : RenamingFault} (h : job.Stops e fault) : e.isClass = true := by
  cases h <;> assumption

/-- Something is written for an entry just if it is accepted where it is a class file. -/
theorem exists_makes_iff : (∃ out, job.Makes e out) ↔ (e.isClass = true → job.Accepts e) := by
  refine ⟨fun ⟨_, h⟩ => h.accepts, fun h => ?_⟩
  rcases job.makes_or_stops e with hmakes | ⟨fault, hstops⟩
  · exact hmakes
  · exact (h hstops.isClass).makes hstops.isClass

theorem exists_makes_all_iff : (∃ outs, List.Forall₂ job.Makes entries outs) ↔
    ∀ e ∈ entries, e.isClass = true → job.Accepts e := by
  induction entries with
  | nil => simp
  | cons e entries ih =>
    rw [List.forall_mem_cons, ← exists_makes_iff, ← ih]
    constructor
    · rintro ⟨_, _ | ⟨hmakes, hall⟩⟩
      exact ⟨⟨_, hmakes⟩, ⟨_, hall⟩⟩
    · rintro ⟨⟨out, hmakes⟩, ⟨outs, hall⟩⟩
      exact ⟨out :: outs, .cons hmakes hall⟩

/-- What is written for an entry that a container keeps is kept as well. -/
theorem Makes.stored (h : job.Makes e out) (he : e.stored = e) : out.map Entry.stored = out := by
  cases h with
  | directory | resource => rw [List.map_singleton, he]
  | nothing => rfl
  | @cls c c' owner =>
    have hname := Entry.endsAsDirectory_append_classSuffix (job.mapping.renameClass owner)
    have hkept : (Entry.file (job.mapping.renameClass owner ++ classSuffix) c'.encode
        e.time).stored = .file (job.mapping.renameClass owner ++ classSuffix) c'.encode e.time :=
      Entry.stored_eq_self_iff.2
        ⟨hname, by simp [Entry.file], (Entry.stored_eq_self_iff.1 he).2.2⟩
    rw [List.map_singleton, hkept]

theorem map_stored_flatten {outs : List (List Entry)} (h : List.Forall₂ job.Makes entries outs)
    (hstored : ∀ e ∈ entries, e.stored = e) :
    outs.flatten.map Entry.stored = outs.flatten := by
  induction h with
  | nil => rfl
  | @cons e out entries outs hmakes _ ih =>
    rw [List.forall_mem_cons] at hstored
    rw [List.flatten_cons, List.map_append, hmakes.stored hstored.1, ih hstored.2]

end RenamingJob

/-- Every entry is of one kind. -/
theorem countP_kinds (entries : List Entry) :
    entries.countP Entry.isClass + entries.countP Entry.isResource +
      entries.countP Entry.isDirectory = entries.length := by
  induction entries with
  | nil => rfl
  | cons e entries ih =>
    have hone : (if e.isClass then 1 else 0) + (if e.isResource then 1 else 0) +
        (if e.isDirectory then 1 else 0) = 1 := by
      cases hdir : e.isDirectory <;> cases hcls : e.isClass <;>
        simp_all [Entry.isResource, Entry.isClass]
    simp only [List.countP_cons, List.length_cons]
    omega

/-! ## A run -/

variable {w : World} {input output : Path}

theorem renameEntries_ok_iff (job : RenamingJob) (hready : Ready w input output entries) :
    (∃ done w', renameEntries job input entries output w = .ok done w') ↔
      ∀ e ∈ entries, e.isClass = true → job.Accepts e := by
  obtain ⟨place, made, hmade, hread⟩ := hready
  rw [renameEntries_of_made hmade hread, ← RenamingJob.exists_makes_all_iff]
  constructor
  · rintro ⟨done, w', h⟩
    cases hrun : job.renameAll entries {} with
    | error fault left => simp [hrun] at h
    | ok _ done =>
      obtain ⟨outs, hall, -⟩ := RenamingJob.renameAll_eq_ok_iff.1 hrun
      exact ⟨outs, hall⟩
  · rintro ⟨outs, hall⟩
    rw [RenamingJob.renameAll_of_makes hall]
    exact ⟨_, _, rfl⟩

theorem renameEntries_error_iff (job : RenamingJob) (hready : Ready w input output entries)
    (fault : RenameFileFault) :
    (∃ w', renameEntries job input entries output w = .error fault w') ↔
      ∃ before e rest cause, entries = before ++ e :: rest ∧
        (∀ x ∈ before, x.isClass = true → job.Accepts x) ∧ job.Stops e cause ∧
        fault = .entry cause := by
  obtain ⟨place, made, hmade, hread⟩ := hready
  rw [renameEntries_of_made hmade hread]
  constructor
  · rintro ⟨w', h⟩
    cases hrun : job.renameAll entries {} with
    | error cause left =>
      rw [hrun] at h
      cases h
      obtain ⟨before, e, rest, outs, rfl, hall, hstops, -⟩ :=
        RenamingJob.renameAll_eq_error_iff.1 hrun
      exact ⟨before, e, rest, cause, rfl, RenamingJob.exists_makes_all_iff.1 ⟨outs, hall⟩, hstops,
        rfl⟩
    | ok _ done => simp [hrun] at h
  · rintro ⟨before, e, rest, cause, rfl, haccepts, hstops, rfl⟩
    obtain ⟨outs, hall⟩ := RenamingJob.exists_makes_all_iff.2 haccepts
    rw [RenamingJob.renameAll_of_stops hall hstops]
    exact ⟨_, rfl⟩

theorem renameEntries_output {done : RenamingState} {w' : World}
    (h : renameEntries job input entries output w = .ok done w') :
    ∃ outs, List.Forall₂ job.Makes entries outs ∧
      w'.store.content output = .ok (.archive (outs.flatten.map Entry.stored)) ∧
      done = job.after {} entries outs.flatten := by
  obtain ⟨place, made, hmade, -, hrun, rfl⟩ := renameEntries_eq_ok h
  obtain ⟨outs, hall, rfl⟩ := RenamingJob.renameAll_eq_ok_iff.1 hrun
  refine ⟨outs, hall, ?_, rfl⟩
  simpa [RenamingJob.after] using content_filled hmade outs.flatten

/-! ## Along the hierarchy of the archive -/

variable {mapping : Naming.SymbolMapping} {access : Access.Table}

theorem renameArchive_ok_iff (hinput : w.store.content input = .ok (.archive entries))
    (hready : Ready w input output entries) :
    (∃ done w', renameArchive mapping access input output w = .ok done w') ↔
      ∀ e ∈ entries, e.isClass = true → (archiveJob mapping access entries).Accepts e := by
  rw [← renameEntries_ok_iff _ (hready.reports _)]
  constructor
  · rintro ⟨done, w', h⟩
    obtain ⟨entries', middle, hinput', hentries, -⟩ := renameArchive_eq_ok_iff.1 h
    cases hinput.symm.trans hinput'
    exact ⟨done, middle, hentries⟩
  · rintro ⟨done, middle, hentries⟩
    exact ⟨done, _, renameArchive_eq_ok_iff.2 ⟨entries, middle, hinput, hentries, rfl⟩⟩

theorem renameArchive_output {done : RenamingState} {w' : World}
    (hinput : w.store.content input = .ok (.archive entries))
    (h : renameArchive mapping access input output w = .ok done w') :
    ∃ outs, List.Forall₂ (archiveJob mapping access entries).Makes entries outs ∧
      w'.store.content output = .ok (.archive (outs.flatten.map Entry.stored)) := by
  obtain ⟨entries', middle, hinput', hentries, rfl⟩ := renameArchive_eq_ok_iff.1 h
  cases hinput.symm.trans hinput'
  obtain ⟨outs, hall, hcontent, -⟩ := renameEntries_output hentries
  exact ⟨outs, hall, hcontent⟩

theorem renameArchive_of_isFileName (hinput : Store.IsFileName input)
    (houtput : Store.IsFileName output) (hne : input ≠ output)
    (hnode : w.store.node? [input] = some (.file (.archive entries)))
    (hdir : w.store.node? [output] ≠ some .directory) {outs : List (List Entry)}
    (hall : List.Forall₂ (archiveJob mapping access entries).Makes entries outs) :
    ∃ done w', renameArchive mapping access input output w = .ok done w' ∧
      w'.store = (w.store.put [output] (.file (.bytes []))).put [output]
        (.file (.archive (outs.flatten.map Entry.stored))) := by
  let told : World := { w with reports := (hierarchyNotices entries).reverse ++ w.reports }
  have hnode' : told.store.node? [input] = some (.file (.archive entries)) := hnode
  obtain ⟨made, hmade, hread, hstore⟩ := made_of_isFileName hinput houtput hne hnode' hdir
  let done := (archiveJob mapping access entries).after {} entries outs.flatten
  have hrun : renameEntries (archiveJob mapping access entries) input entries output told =
      .ok done (made.filled [output] done.written.reverse) := by
    rw [renameEntries_of_made hmade hread, RenamingJob.renameAll_of_makes hall]
  refine ⟨_, _, renameArchive_eq_ok_iff.2 ⟨entries, _, hinput.content hnode, hrun, rfl⟩, ?_⟩
  simpa [done, RenamingJob.after] using hstore outs.flatten

theorem renameArchive_holding (hinput : Store.IsFileName input) (houtput : Store.IsFileName output)
    (hne : input ≠ output) {outs : List (List Entry)}
    (hall : List.Forall₂ (archiveJob mapping access entries).Makes entries outs) :
    ∃ done w', renameArchive mapping access input output (holding input entries) = .ok done w' ∧
      w'.store.content output = .ok (.archive (outs.flatten.map Entry.stored)) := by
  have hnode : (holding input entries).store.node? [input] = some (.file (.archive entries)) := by
    simp [node?_holding]
  obtain ⟨done, w', hrun, hstore⟩ := renameArchive_of_isFileName hinput houtput hne hnode
    (by simp [node?_holding, hne]) hall
  exact ⟨done, w', hrun, houtput.content (by simp [hstore, Store.node?_put])⟩

/-! ## Entry by entry -/

/-- Renaming goes entry by entry and loses nothing. It succeeds just if every class file is
accepted, and otherwise ends with the fault of the first one that is not. The output holds what is
made of each entry, in the order of the input. -/
theorem renameEntries_entrywise (job : RenamingJob) (hready : Ready w input output entries) :
    ((∃ done w', renameEntries job input entries output w = .ok done w') ↔
      ∀ e ∈ entries, e.isClass = true → job.Accepts e) ∧
    (∀ fault, (∃ w', renameEntries job input entries output w = .error fault w') ↔
      ∃ before e rest cause, entries = before ++ e :: rest ∧
        (∀ x ∈ before, x.isClass = true → job.Accepts x) ∧ job.Stops e cause ∧
        fault = .entry cause) ∧
    ∀ done w', renameEntries job input entries output w = .ok done w' →
      ∃ outs, List.Forall₂ job.Makes entries outs ∧
        w'.store.content output = .ok (.archive (outs.flatten.map Entry.stored)) ∧
        ((∀ e ∈ entries, e.stored = e) → outs.flatten.map Entry.stored = outs.flatten) ∧
        done.classes = entries.countP Entry.isClass ∧
        done.resources = entries.countP Entry.isResource ∧
        (job.copyDirectories = false →
          done.classes + done.resources + done.directoriesSkipped = entries.length) := by
  refine ⟨renameEntries_ok_iff job hready, renameEntries_error_iff job hready, fun done w' h => ?_⟩
  obtain ⟨outs, hall, hcontent, rfl⟩ := renameEntries_output h
  refine ⟨outs, hall, hcontent, RenamingJob.map_stored_flatten hall, by simp [RenamingJob.after],
    by simp [RenamingJob.after], fun hcopy => ?_⟩
  simpa [RenamingJob.after, hcopy] using countP_kinds entries

/-! ### A directory, a text and a class -/

/-- Renames the class `f` and makes its field public. -/
def heirJob : RenamingJob where
  mapping := heirMapping
  access := heirTable

def heirTime : Timestamp :=
  ⟨1980, 1, 1, 0, 0, 0⟩

/-- A directory, a text, and the class `f` in a place that its name does not tell. -/
def heirEntries : List Entry :=
  [⟨"lib/", true, heirTime, []⟩, .file "lib/f.txt" [102] heirTime,
    .file "lib/f.class" heir.encode heirTime]

theorem makes_heirEntries : List.Forall₂ heirJob.Makes heirEntries
    [[], [.file "lib/f.txt" [102] heirTime],
      [.file "f.class" heirWidened.encode heirTime]] := by
  have hcls : heirJob.Makes (.file "lib/f.class" heir.encode heirTime)
      [.file (heirJob.mapping.renameClass "f" ++ classSuffix) heirWidened.encode heirTime] := by
    refine .cls (by decide) decode_encode_heir ⟨name_heir, heirRenamed, ?_, widen_heir⟩
    rw [show heirJob.mapping.renameClass "f" = "f" from renameClass_heir]
    exact rename_heir
  rw [show heirJob.mapping.renameClass "f" = "f" from renameClass_heir] at hcls
  exact .cons (.nothing rfl rfl) (.cons (.resource (by decide)) (.cons hcls .nil))

theorem renameEntries_heirEntries :
    Ready (holding "in.jar" heirEntries) "in.jar" "out.jar" heirEntries ∧
      ∃ done w', renameEntries heirJob "in.jar" heirEntries "out.jar"
          (holding "in.jar" heirEntries) = .ok done w' ∧
        w'.store.content "out.jar" = .ok (.archive
          [.file "lib/f.txt" [102] heirTime, .file "f.class" heirWidened.encode heirTime]) ∧
        done.classes = 1 ∧ done.resources = 1 := by
  have hready : Ready (holding "in.jar" heirEntries) "in.jar" "out.jar" heirEntries :=
    ready_holding isFileName_input isFileName_output (by decide) heirEntries
  obtain ⟨hok, -, houtput⟩ := renameEntries_entrywise heirJob hready
  obtain ⟨done, w', hrun⟩ :=
    hok.2 (RenamingJob.exists_makes_all_iff.1 ⟨_, makes_heirEntries⟩)
  obtain ⟨outs, hall, hcontent, hstored, hclasses, hresources, -⟩ := houtput done w' hrun
  obtain rfl := List.right_unique_forall₂' (fun _ _ _ h h' => h.unique h') hall makes_heirEntries
  rw [hstored (by decide)] at hcontent
  exact ⟨hready, done, w', hrun, hcontent, hclasses, hresources⟩

end JarRefit.Archive
