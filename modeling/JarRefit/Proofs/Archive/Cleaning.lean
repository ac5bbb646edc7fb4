import JarRefit.Proofs.Archive.Stripping
import JarRefit.Proofs.ClassFile.Rereading
import JarRefit.Proofs.Renaming.Members

/-!
# Renaming an archive and stripping it

The class files of an archive that is renamed, kept by a container and stripped are those of the
input, in their order; only those that are metadata under their new names are missing.

## Main definitions

* `RenamingJob.Rewritten`: what renaming makes of a class file's entry.
* `Entry.survives`: a class file that stripping does not take for metadata once it is renamed.
* `CleanedEntry`: what renaming and stripping make of a class file's entry.
-/
namespace JarRefit.Archive

open ClassFile Naming

variable {job : RenamingJob} {e e' : Entry} {entries out : List Entry} {outs : List (List Entry)}

/-! ## Class files of a container -/

theorem filter_isClass_map_stored (entries : List Entry) :
    (entries.map Entry.stored).filter Entry.isClass =
      (entries.filter Entry.isClass).map Entry.stored := by
  rw [List.filter_map]
  congr 2
  funext e
  exact e.isClass_stored

/-! ## Renaming -/

/-- The second entry has the class file of the first one, renamed and widened, under the new name of
its class. -/
def RenamingJob.Rewritten (job : RenamingJob) (e e' : Entry) : Prop :=
  ∃ c owner c', decode e.data = .ok c ∧ job.Rewrites c owner c' ∧ e'.isClass = true ∧
    e'.name = job.mapping.renameClass owner ++ classSuffix ∧ e'.data = c'.encode

theorem RenamingJob.Rewritten.stored (h : job.Rewritten e e') : job.Rewritten e e'.stored := by
  obtain ⟨c, owner, c', hdecode, hrewrites, hcls, hname, hdata⟩ := h
  obtain ⟨hname', hdata'⟩ := Entry.stored_of_isClass hcls
  exact ⟨c, owner, c', hdecode, hrewrites, by rwa [Entry.isClass_stored], hname'.trans hname,
    hdata'.trans hdata⟩

/-- Every class file of the input is written. -/
theorem forall₂_rewritten (h : List.Forall₂ job.Makes entries outs) :
    List.Forall₂ job.Rewritten (entries.filter Entry.isClass)
      (outs.flatten.filter Entry.isClass) := by
  induction h with
  | nil => exact .nil
  | @cons e out entries outs hmakes _ ih =>
    rw [List.flatten_cons, List.filter_append]
    cases hmakes with
    | directory hdir | nothing hdir =>
      have hcls : e.isClass = false := by simp [Entry.isClass, hdir]
      simpa [hcls] using ih
    | resource hres =>
      have hcls : e.isClass = false := by simp_all [Entry.isResource]
      simpa [hcls] using ih
    | @cls c c' owner hcls hdecode hrewrites =>
      have hcls' : (Entry.file (job.mapping.renameClass owner ++ classSuffix) c'.encode
          e.time).isClass = true := Entry.isClass_iff.2 ⟨rfl, _, rfl⟩
      rw [List.filter_cons_of_pos hcls, List.filter_cons_of_pos hcls']
      exact .cons ⟨c, owner, c', hdecode, hrewrites, hcls', rfl, rfl⟩ ih

/-! ## Stripping -/

/-- The name under which renaming writes the class file of an entry, if it can be read. -/
def Entry.newName? (m : SymbolMapping) (e : Entry) : Option String :=
  ((decode e.data).bind ClassFile.name).toOption.map (m.renameClass · ++ classSuffix)

/-- Whether the class file of the entry is no metadata under its new name. -/
def Entry.survives (m : SymbolMapping) (e : Entry) : Bool :=
  (e.newName? m).any fun name => !{ e with name }.isMetadata

theorem RenamingJob.Rewritten.survives_eq (h : job.Rewritten e e') :
    e.survives job.mapping = !e'.isMetadata := by
  obtain ⟨c, owner, c', hdecode, hrewrites, -, hname, -⟩ := h
  have hnew : e.newName? job.mapping = some e'.name := by
    simp [Entry.newName?, hdecode, hrewrites.name, hname, Except.bind, Except.toOption]
  rw [Entry.survives, hnew]
  rfl

/-- The second entry has the class file of the first one, renamed, widened and stripped, under the
new name of its class. -/
def CleanedEntry (m : SymbolMapping) (e e' : Entry) : Prop :=
  ∃ c owner c', decode e.data = .ok c ∧ decode e'.data = .ok c' ∧
    e'.name = m.renameClass owner ++ classSuffix ∧ Cleaned m c owner c'

theorem cleanedEntry_of_stripped {middle : Entry} (hrewritten : job.Rewritten e middle)
    (hstripped : Stripped middle e')
    (hsize : ∀ c, decode e.data = .ok c → c.pool.size ≤ 65535) :
    CleanedEntry job.mapping e e'.stored := by
  obtain ⟨c, owner, c', hdecode, ⟨hname, renamed, hrename, hwiden⟩, hcls, hmiddle, hdata⟩ :=
    hrewritten
  obtain ⟨data?, hstrip, rfl⟩ := hstripped
  have hc := representable_of_decode hdecode (hsize c hdecode)
  have hc' := representable_widen (representable_rename hc hrename) hwiden
  rw [hdata] at hstrip
  obtain ⟨keeps, hkeeps, hagain⟩ := decode_of_stripBytes? hc' hstrip
  obtain ⟨owner', -, hcleaned⟩ := cleaned_of_rewrite hc hrename hwiden hkeeps
  obtain rfl := Except.ok.inj (hname.symm.trans hcleaned.name)
  -- A container leaves the name and the data of a class file.
  obtain ⟨hname', hdata'⟩ :=
    Entry.stored_of_isClass (e := { middle with data := data?.getD middle.data }) hcls
  exact ⟨c, owner, _, hdecode, by rw [hdata', hdata, hagain], hname'.trans hmiddle, hcleaned⟩

/-- The class files that renaming and stripping leave. -/
theorem forall₂_cleanedEntry {outs' : List (List Entry)}
    (hmakes : List.Forall₂ job.Makes entries outs)
    (hstrips : List.Forall₂ Strips (outs.flatten.map Entry.stored) outs')
    (hsize : ∀ e ∈ entries, e.isClass = true → ∀ c, decode e.data = .ok c →
      c.pool.size ≤ 65535) :
    List.Forall₂ (CleanedEntry job.mapping)
      ((entries.filter Entry.isClass).filter fun e => e.survives job.mapping)
      ((outs'.flatten.map Entry.stored).filter Entry.isClass) := by
  have hrewritten : List.Forall₂
      (fun e middle => (e ∈ entries ∧ e.isClass = true) ∧ job.Rewritten e middle)
      (entries.filter Entry.isClass) ((outs.flatten.map Entry.stored).filter Entry.isClass) := by
    rw [filter_isClass_map_stored, List.forall₂_map_right_iff, List.forall₂_and_left]
    exact ⟨by simp, (forall₂_rewritten hmakes).imp fun _ _ => .stored⟩
  have hkept := List.rel_filter (p := fun e => e.survives job.mapping)
    (q := fun middle => !middle.isMetadata) (fun _ _ h => Bool.coe_iff_coe.2 h.2.survives_eq)
    hrewritten
  rw [filter_isClass_map_stored, List.forall₂_map_right_iff]
  refine forall₂_trans ?_ hkept (forall₂_stripped hstrips)
  rintro e middle e' ⟨⟨he, hcls⟩, hmiddle⟩ hstripped
  exact cleanedEntry_of_stripped hmiddle hstripped (hsize e he hcls)

end JarRefit.Archive
