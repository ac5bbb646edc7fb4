import Mathlib.Data.List.Forall2
import JarRefit.Archive.Renaming
import JarRefit.Proofs.Archive.Entry
import JarRefit.Proofs.Renaming.Class

/-!
# Renaming an archive entry by entry

Each entry is renamed by itself: what is written for it depends on no other entry, and the first
entry that cannot be renamed ends the run.

## Main definitions

* `RenamingJob.Rewrites`: what a job makes of a class file.
* `RenamingJob.Makes`, `RenamingJob.Stops`: what it writes for an entry, and why it ends there.
* `RenamingJob.after`: the state of a run behind some entries.
-/
namespace JarRefit.Archive

open ClassFile Naming

namespace RenamingJob

/-- A class file, the name it declares, and the class file after renaming and widening. -/
structure Rewrites (job : RenamingJob) (c : ClassFile) (owner : String) (c' : ClassFile) :
    Prop where
  name : c.name = .ok owner
  steps : ∃ renamed, c.rename job.mapping = .ok (job.mapping.renameClass owner) renamed ∧
    renamed.widen job.access = .ok () c'

/-- What a job writes for an entry: a directory or nothing, another file as it is, and a class file
under the new name of the class that it declares. -/
inductive Makes (job : RenamingJob) (e : Entry) : List Entry → Prop where
  | directory (hdir : e.isDirectory = true) (hcopy : job.copyDirectories = true) : Makes job e [e]
  | nothing (hdir : e.isDirectory = true) (hcopy : job.copyDirectories = false) : Makes job e []
  | resource (hres : e.isResource = true) : Makes job e [e]
  | cls {c c' : ClassFile} {owner : String} (hcls : e.isClass = true)
      (hdecode : decode e.data = .ok c) (hrewrites : job.Rewrites c owner c') :
      Makes job e [.file (job.mapping.renameClass owner ++ classSuffix) c'.encode e.time]

/-- Why a job ends at an entry: a class file cannot be read, renamed or widened. -/
inductive Stops (job : RenamingJob) (e : Entry) : RenamingFault → Prop where
  | malformed {fault : Fault} (hcls : e.isClass = true) (hdecode : decode e.data = .error fault) :
      Stops job e (.malformedClass e.name fault)
  | notRenamed {c left : ClassFile} {fault : Fault} (hcls : e.isClass = true)
      (hdecode : decode e.data = .ok c) (hrename : c.rename job.mapping = .error fault left) :
      Stops job e (.rewriting fault)
  | notWidened {c renamed left : ClassFile} {name : String} {fault : Fault}
      (hcls : e.isClass = true) (hdecode : decode e.data = .ok c)
      (hrename : c.rename job.mapping = .ok name renamed)
      (hwiden : renamed.widen job.access = .error fault left) : Stops job e (.rewriting fault)

/-- The state behind some more entries, for which some more was written. -/
def after (job : RenamingJob) (s : RenamingState) (entries written : List Entry) :
    RenamingState where
  written := written.reverse ++ s.written
  classes := s.classes + entries.countP Entry.isClass
  resources := s.resources + entries.countP Entry.isResource
  directoriesSkipped := s.directoriesSkipped +
    if job.copyDirectories then 0 else entries.countP Entry.isDirectory

variable {job : RenamingJob} {e : Entry} {out out' : List Entry} {fault : RenamingFault}

/-! ## One entry -/

/-- Every entry is a directory, a class file or another file. -/
theorem entry_cases (e : Entry) :
    e.isDirectory = true ∨ e.isClass = true ∨ e.isResource = true := by
  unfold Entry.isResource
  cases e.isDirectory <;> cases e.isClass <;> simp

theorem Makes.renameEntry (h : job.Makes e out) (s : RenamingState) :
    job.renameEntry e s = .ok () (job.after s [e] out) := by
  cases h with
  | directory hdir hcopy =>
    have hcls : e.isClass = false := by simp [Entry.isClass, hdir]
    simp [RenamingJob.renameEntry, after, hdir, hcopy, hcls, Entry.isResource]
  | nothing hdir hcopy =>
    have hcls : e.isClass = false := by simp [Entry.isClass, hdir]
    simp [RenamingJob.renameEntry, after, hdir, hcopy, hcls, Entry.isResource]
  | resource hres =>
    obtain ⟨hdir, hcls⟩ : e.isDirectory = false ∧ e.isClass = false := by
      simpa [Entry.isResource] using hres
    simp [RenamingJob.renameEntry, after, hdir, hcls, hres]
  | @cls c c' owner hcls hdecode hrewrites =>
    obtain ⟨-, renamed, hrename, hwiden⟩ := hrewrites
    have hdir := Entry.isDirectory_of_isClass hcls
    have hdata : job.renameData e.name e.data =
        .ok (job.mapping.renameClass owner, c'.encode) := by
      simp [renameData, hdecode, bind, pure, EStateM.bind, EStateM.pure, hrename, hwiden]
    simp [RenamingJob.renameEntry, after, hdir, hcls, hdata, Entry.isResource]

theorem Stops.renameEntry (h : job.Stops e fault) (s : RenamingState) :
    job.renameEntry e s = .error fault s := by
  have hdata : e.isClass = true ∧ job.renameData e.name e.data = .error fault := by
    cases h with
    | malformed hcls hdecode => exact ⟨hcls, by simp [renameData, hdecode]⟩
    | notRenamed hcls hdecode hrename =>
      exact ⟨hcls, by simp [renameData, hdecode, bind, EStateM.bind, hrename]⟩
    | notWidened hcls hdecode hrename hwiden =>
      exact ⟨hcls, by simp [renameData, hdecode, bind, EStateM.bind, hrename, hwiden]⟩
  obtain ⟨hcls, hdata⟩ := hdata
  simp [RenamingJob.renameEntry, Entry.isDirectory_of_isClass hcls, hcls, hdata]

/-- A class file that nothing is done to is written under the name of its class. -/
theorem Makes.of_unchanged {c : ClassFile} {path name : String} {time : Timestamp}
    (hcls : (Entry.file path c.encode time).isClass = true) (hdecode : decode c.encode = .ok c)
    (hname : c.name = .ok name) (hnew : job.mapping.renameClass name = name)
    (hrename : c.rename job.mapping = .ok name c) (hwiden : c.widen job.access = .ok () c) :
    job.Makes (.file path c.encode time) [.file (name ++ classSuffix) c.encode time] := by
  have hmakes : job.Makes (.file path c.encode time)
      [.file (job.mapping.renameClass name ++ classSuffix) c.encode time] :=
    .cls hcls hdecode ⟨hname, c, by rwa [hnew], hwiden⟩
  rwa [hnew] at hmakes

/-- Something is written for an entry, or the job ends there. -/
theorem makes_or_stops (job : RenamingJob) (e : Entry) :
    (∃ out, job.Makes e out) ∨ ∃ fault, job.Stops e fault := by
  rcases entry_cases e with hdir | hcls | hres
  · cases hcopy : job.copyDirectories with
    | true => exact .inl ⟨[e], .directory hdir hcopy⟩
    | false => exact .inl ⟨[], .nothing hdir hcopy⟩
  · cases hdecode : decode e.data with
    | error fault => exact .inr ⟨_, .malformed hcls hdecode⟩
    | ok c =>
      cases hrename : c.rename job.mapping with
      | error fault left => exact .inr ⟨_, .notRenamed hcls hdecode hrename⟩
      | ok name renamed =>
        cases hwiden : renamed.widen job.access with
        | error fault left => exact .inr ⟨_, .notWidened hcls hdecode hrename hwiden⟩
        | ok _ c' =>
          obtain ⟨owner, -, -, -, hname, rfl, -⟩ := rename_eq_ok hrename
          exact .inl ⟨_, .cls hcls hdecode ⟨hname, renamed, hrename, hwiden⟩⟩
  · exact .inl ⟨[e], .resource hres⟩

theorem Makes.unique (h : job.Makes e out) (h' : job.Makes e out') : out = out' := by
  have hsame := (h.renameEntry {}).symm.trans (h'.renameEntry {})
  simpa [after] using hsame

/-! ## All entries -/

@[simp]
theorem after_nil (job : RenamingJob) (s : RenamingState) : job.after s [] [] = s := by
  simp [after]

theorem after_after (job : RenamingJob) (s : RenamingState)
    (entries entries' written written' : List Entry) :
    job.after (job.after s entries written) entries' written' =
      job.after s (entries ++ entries') (written ++ written') := by
  simp only [after, List.reverse_append, List.append_assoc, List.countP_append,
    RenamingState.mk.injEq, true_and]
  refine ⟨by omega, by omega, ?_⟩
  split <;> omega

theorem renameAll_cons (job : RenamingJob) (e : Entry) (entries : List Entry) :
    job.renameAll (e :: entries) = job.renameEntry e >>= fun _ => job.renameAll entries := rfl

/-- A run writes what is made of each entry, in their order. -/
theorem renameAll_append {entries : List Entry} {outs : List (List Entry)}
    (h : List.Forall₂ job.Makes entries outs) (rest : List Entry) (s : RenamingState) :
    job.renameAll (entries ++ rest) s =
      job.renameAll rest (job.after s entries outs.flatten) := by
  induction h generalizing s with
  | nil => rw [List.nil_append, List.flatten_nil, after_nil]
  | @cons e out entries outs hmakes _ ih =>
    calc job.renameAll (e :: (entries ++ rest)) s
        = job.renameAll (entries ++ rest) (job.after s [e] out) := by
          simp [renameAll_cons, bind, EStateM.bind, hmakes.renameEntry s]
      _ = job.renameAll rest (job.after (job.after s [e] out) entries outs.flatten) := ih _
      _ = job.renameAll rest (job.after s (e :: entries) (out :: outs).flatten) := by
          rw [after_after]
          rfl

/-- Something is written for every entry, or there is a first one at which the job ends. -/
theorem makes_all_or_stops (job : RenamingJob) (entries : List Entry) :
    (∃ outs, List.Forall₂ job.Makes entries outs) ∨
      ∃ before e rest outs fault, entries = before ++ e :: rest ∧
        List.Forall₂ job.Makes before outs ∧ job.Stops e fault := by
  induction entries with
  | nil => exact .inl ⟨[], .nil⟩
  | cons e entries ih =>
    rcases job.makes_or_stops e with ⟨out, hmakes⟩ | ⟨fault, hstops⟩
    · rcases ih with ⟨outs, hall⟩ | ⟨before, e', rest, outs, fault, rfl, hall, hstops⟩
      · exact .inl ⟨out :: outs, .cons hmakes hall⟩
      · exact .inr ⟨e :: before, e', rest, out :: outs, fault, rfl, .cons hmakes hall, hstops⟩
    · exact .inr ⟨[], e, entries, [], fault, rfl, .nil, hstops⟩

variable {entries : List Entry} {s s' : RenamingState}

theorem renameAll_of_makes {outs : List (List Entry)} (h : List.Forall₂ job.Makes entries outs) :
    job.renameAll entries s = .ok () (job.after s entries outs.flatten) := by
  have hrun := renameAll_append h [] s
  rwa [List.append_nil] at hrun

theorem renameAll_of_stops {before rest : List Entry} {outs : List (List Entry)}
    (h : List.Forall₂ job.Makes before outs) (hstops : job.Stops e fault) :
    job.renameAll (before ++ e :: rest) s = .error fault (job.after s before outs.flatten) := by
  rw [renameAll_append h, renameAll_cons]
  simp [bind, EStateM.bind, hstops.renameEntry]

theorem renameAll_eq_ok_iff : job.renameAll entries s = .ok () s' ↔
    ∃ outs, List.Forall₂ job.Makes entries outs ∧ s' = job.after s entries outs.flatten := by
  constructor
  · intro h
    rcases job.makes_all_or_stops entries with
      ⟨outs, hall⟩ | ⟨before, e, rest, outs, fault, rfl, hall, hstops⟩
    · cases (renameAll_of_makes hall).symm.trans h
      exact ⟨outs, hall, rfl⟩
    · cases (renameAll_of_stops hall hstops).symm.trans h
  · rintro ⟨outs, hall, rfl⟩
    exact renameAll_of_makes hall

theorem renameAll_eq_error_iff : job.renameAll entries s = .error fault s' ↔
    ∃ before e rest outs, entries = before ++ e :: rest ∧ List.Forall₂ job.Makes before outs ∧
      job.Stops e fault ∧ s' = job.after s before outs.flatten := by
  constructor
  · intro h
    rcases job.makes_all_or_stops entries with
      ⟨outs, hall⟩ | ⟨before, e, rest, outs, fault', rfl, hall, hstops⟩
    · cases (renameAll_of_makes hall).symm.trans h
    · cases (renameAll_of_stops hall hstops).symm.trans h
      exact ⟨before, e, rest, outs, rfl, hall, hstops, rfl⟩
  · rintro ⟨before, e, rest, outs, rfl, hall, hstops, rfl⟩
    exact renameAll_of_stops hall hstops

end RenamingJob

end JarRefit.Archive
