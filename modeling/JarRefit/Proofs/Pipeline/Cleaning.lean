import JarRefit.Proofs.Archive.Cleaning
import JarRefit.Proofs.Archive.Order
import JarRefit.Proofs.Pipeline.Stages

/-!
# What the pipeline does to flags

A run without a program of its own between renaming and stripping only cleans: every class file of
the output is one of the input, renamed, with members that are no less visible and that are
synthetic only where their class lets them be.

## Main definitions

* `runMapping`: the mapping that a run renames by.
-/
namespace JarRefit.Pipeline

open Archive ClassFile Files Naming Renaming

variable {c : Config} {w w' : World}

/-- The mapping that a run renames by: the text's, with members looked up along the hierarchy of the
archive. -/
def runMapping (srg : String) (entries : List Entry) : SymbolMapping :=
  { SymbolMapping.empty.load srg with hierarchy := some ⟨[parentTable entries]⟩ }

theorem Config.getLast?_segments_postProcessedJar (hstrip : c.stripSynthetics = true) :
    c.postProcessedJar.segments.getLast? = some postProcessedName := by
  rw [postProcessedJar, if_pos hstrip]
  exact Path.getLast?_segments_join c.workDir (by decide)

/-- The class files of the output are those of the input, in their order and cleaned, but for those
that are metadata under their new names. -/
theorem run_cleaned (hpost : c.exceptor = none) (hstrip : c.stripSynthetics = true)
    (hsize : ∀ srg entries, c.Reads w srg entries → ∀ e ∈ entries, e.isClass = true →
      ∀ cls, decode e.data = .ok cls → cls.pool.size ≤ 65535)
    (h : run c w = .ok () w') :
    ∃ srg entries written, c.Reads w srg entries ∧
      w'.store.content c.outputJar = .ok (.archive written) ∧
      List.Forall₂ (CleanedEntry (runMapping srg entries))
        ((entries.filter Entry.isClass).filter fun e => e.survives (runMapping srg entries))
        (written.filter Entry.isClass) := by
  obtain ⟨_, prepared, hprepare, hrest⟩ := estate_bind_eq_ok_iff.1 h
  obtain ⟨_, passed, hpassed, hfinish⟩ := estate_bind_eq_ok_iff.1 hrest
  rw [Config.postProcessor, hpost] at hpassed
  rw [finish, if_pos hstrip] at hfinish
  obtain ⟨_, told, htold, hfinish⟩ := estate_bind_eq_ok_iff.1 hfinish
  obtain ⟨_, _, hstripped, hdone⟩ := estate_bind_eq_ok_iff.1 hfinish
  obtain ⟨-, rfl⟩ := estate_pure_eq_ok_iff.1 hdone
  rw [Run.mapFault_eq_ok_iff] at hstripped
  obtain ⟨srg, access, entries, outs, hreads, hmakes, hrenamed⟩ := prepare_eq_ok hprepare
  have hcopied := content_of_copyThrough hpassed hrenamed c.getLast?_segments_renamedJar
    (by decide) (by rw [Config.request, Config.getLast?_segments_postProcessedJar hstrip]; decide)
  rw [← (Run.Reads.report _).store_eq htold] at hcopied
  obtain ⟨middle, outs', hmiddle, hstrips, hwritten⟩ := stripArchive_output hstripped
  cases hmiddle.symm.trans hcopied
  have hmapping : (archiveJob (.load .empty srg) access entries).mapping = runMapping srg entries :=
    rfl
  have hcleaned := forall₂_cleanedEntry hmakes hstrips (hsize srg entries hreads)
  rw [hmapping] at hcleaned
  exact ⟨srg, entries, _, hreads, hwritten, hcleaned⟩

/-! ### A class with a synthetic field -/

/-- A class `f` with a private synthetic field `d` of type `I`. -/
def marked : ClassFile where
  minorVersion := 0
  majorVersion := 52
  pool := ⟨#[.unusable, .utf8 (Utf8.encode "f"), .classRef 1, .utf8 (Utf8.encode "d"),
    .utf8 (Utf8.encode "I")]⟩
  access := ⟨1⟩
  thisClass := 2
  superClass := 0
  interfaces := []
  fields := [⟨⟨0x1002⟩, 3, 4, []⟩]
  methods := []
  attributes := []

theorem name_marked : marked.name = .ok "f" := by
  simp [ClassFile.name, marked, ConstantPool.className_eq_ok_iff, ConstantPool.text_eq_ok_iff]

theorem rename_marked {m : SymbolMapping} (hname : m.renameClass "f" = "f")
    (hfield : m.fieldEntry? "d" "f" = none) : marked.rename m = .ok "f" marked := by
  have hflags : SymbolMapping.isInheritable ⟨0x1002⟩ = false := by decide
  have hplan : PoolEdit.plan m marked.pool = .ok [] := by
    simp [PoolEdit.plan, marked, ConstantPool.entries, PoolEdit.planEntry, ConstantPool.text,
      ConstantPool.get, bind, Except.bind, pure, Except.pure, Utf8.decode?_encode,
      PoolEdit.newClassName, PoolEdit.isArrayName, hname]
  have hdeclarations : Sheet.renameDeclarations ⟨m, marked.pool, "f"⟩
      ⟨.ofPool marked.pool, marked⟩ = .ok () ⟨.ofPool marked.pool, marked⟩ := by
    simp [Sheet.renameDeclarations, Sheet.renameField, Sheet.renameMember_eq, Sheet.resolve,
      Sheet.unlessSame, marked, Work.on, Work.each, Work.each.go, Work.item, Work.repoint,
      ConstantPool.text, ConstantPool.get, bind, pure, EStateM.bind, EStateM.pure, estate_get_eq,
      Except.bind, Utf8.decode?_encode, SymbolMapping.renameDeclaredField?, hflags, hfield,
      renameDescriptor_int]
  have hrename := rename_eq_self (by decide) name_marked hplan hdeclarations
  rwa [hname] at hrename

theorem widen_marked : marked.widen .empty = .ok () marked := by
  have htext : marked.pool.text 3 = .ok "d" := ConstantPool.text_eq_ok_iff.2 rfl
  refine widen_empty name_marked ?_
  rintro (_ | _) d hd
  · obtain rfl := List.mem_singleton.1 hd
    exact ⟨.field "f" "d", by simp [Member.symbol, htext]⟩
  · cases hd

theorem decode_encode_marked : decode marked.encode = .ok marked := by
  rfl

def markedFile : Entry :=
  .file "f.class" marked.encode heirTime

theorem makes_markedFile :
    (archiveJob .empty .empty [markedFile]).Makes markedFile [markedFile] := by
  have hname := renameClass_archiveJob_empty [markedFile] "f"
  have hfield : (archiveJob .empty .empty [markedFile]).mapping.fieldEntry? "d" "f" = none := by
    simp [archiveJob, SymbolMapping.fieldEntry?, SymbolMapping.empty]
  exact .of_unchanged (by decide) decode_encode_marked name_marked hname
    (rename_marked hname hfield) widen_marked

theorem survives_markedFile : markedFile.survives (runMapping "" [markedFile]) = true := by
  have hcls : markedFile.isClass = true := by decide
  have hrewritten : (archiveJob .empty .empty [markedFile]).Rewritten markedFile markedFile := by
    simpa [hcls] using forall₂_rewritten (.cons makes_markedFile .nil)
  exact hrewritten.survives_eq.trans (by decide)

theorem run_cleaned_markedFile :
    plainConfig.exceptor = none ∧ plainConfig.stripSynthetics = true ∧
      (∀ srg entries, plainConfig.Reads (plainWorld [markedFile]) srg entries →
        ∀ e ∈ entries, e.isClass = true →
          ∀ cls, decode e.data = .ok cls → cls.pool.size ≤ 65535) ∧
      ∃ w' written, run plainConfig (plainWorld [markedFile]) = .ok () w' ∧
        w'.store.content "out.jar" = .ok (.archive written) ∧
        List.Forall₂ (CleanedEntry (runMapping "" [markedFile])) [markedFile]
          (written.filter Entry.isClass) := by
  have hsize (srg : String) (entries : List Entry)
      (hreads : plainConfig.Reads (plainWorld [markedFile]) srg entries) :
      ∀ e ∈ entries, e.isClass = true →
        ∀ cls, decode e.data = .ok cls → cls.pool.size ≤ 65535 := by
    obtain ⟨-, rfl⟩ := hreads.unique (reads_plainConfig [markedFile])
    rw [List.forall_mem_singleton]
    intro _ cls hcls
    obtain rfl := Except.ok.inj (decode_encode_marked.symm.trans hcls)
    decide
  have hstored : [[markedFile]].flatten.map Entry.stored = [markedFile] := by decide
  obtain ⟨w', hrun⟩ := run_plainConfig (.cons makes_markedFile .nil)
    (show stripAll _ {} = .ok () _ by rw [hstored]; rfl)
  obtain ⟨srg, entries, written, hreads, hwritten, hcleaned⟩ := run_cleaned rfl rfl hsize hrun
  obtain ⟨rfl, rfl⟩ := hreads.unique (reads_plainConfig [markedFile])
  have hcls : markedFile.isClass = true := by decide
  refine ⟨rfl, rfl, hsize, w', written, hrun, hwritten, ?_⟩
  simpa [hcls, survives_markedFile] using hcleaned

end JarRefit.Pipeline
