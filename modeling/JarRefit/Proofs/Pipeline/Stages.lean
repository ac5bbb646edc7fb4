import JarRefit.Pipeline.Process
import JarRefit.Proofs.Archive.Entrywise
import JarRefit.Proofs.Archive.Stripping

/-!
# What the stages of the pipeline leave

Where each stage reads and writes. The renamed archive is in its place when the others work on it,
because they write under other names.

## Main definitions

* `Config.Reads`: what a run reads from the files that it starts with.
-/
namespace JarRefit

open Archive Files Naming

/-! ## Nesting sheets -/

namespace Nesting.Sheet

theorem reads_load (path : Path) : Run.Reads (load path) := by
  refine .bind (.read _ _) fun text => ?_
  split
  · exact .pure _
  · exact .throw _

theorem writes_save (sheet : Sheet) (path : Path) :
    Run.Writes [path] (sheet.save path) := by
  unfold save
  split
  · exact .bind ((Run.Writes.makeDirectories _ _).mono (by simp)) fun _ => .write _ _ _
  · exact .write _ _ _

end Nesting.Sheet

namespace Pipeline

variable {c : Config} {w w' : World} {paths : List Path}

/-! ## Stages that only read -/

theorem reads_transformers (c : Config) : Run.Reads (transformers c) :=
  .bind (.mapM (fun _ => .read _ _) _) fun _ => .pure _

theorem reads_loadRenames (c : Config) : Run.Reads (loadRenames c) :=
  .foldlM (fun _ _ => .bind (.read _ _) fun _ => .pure _) _ _

theorem reads_loadAccess (renames : Access.RenameTable) (paths : List Path) :
    Run.Reads (loadAccess renames paths) :=
  .foldlM (fun _ _ => .bind (.report _) fun _ => .bind (.read _ _) fun _ =>
    .bind (.reportAll _) fun _ => .pure _) _ _

/-! ## Preparing -/

theorem rename_eq_ok (h : rename c paths w = .ok () w') :
    ∃ srg access before done, w.store.readText c.srg = .ok srg ∧ before.store = w.store ∧
      renameArchive (SymbolMapping.empty.load srg) access c.inJar c.renamedJar before =
        .ok done w' := by
  obtain ⟨srg, _, hread, hrest⟩ := estate_bind_eq_ok_iff.1 h
  obtain ⟨hsrg, rfl⟩ := Run.read_eq_ok_iff.1 hread
  obtain ⟨_, noted, hnoted, hrest⟩ := estate_bind_eq_ok_iff.1 hrest
  obtain ⟨renames, renamed, hrenames, hrest⟩ := estate_bind_eq_ok_iff.1 hrest
  obtain ⟨access, before, haccess, hrest⟩ := estate_bind_eq_ok_iff.1 hrest
  obtain ⟨done, _, hrun, hdone⟩ := estate_bind_eq_ok_iff.1 hrest
  obtain ⟨-, rfl⟩ := estate_pure_eq_ok_iff.1 hdone
  refine ⟨srg, access, before, done, hsrg, ?_, Run.mapFault_eq_ok_iff.1 hrun⟩
  rw [(reads_loadAccess renames paths).store_eq haccess, (reads_loadRenames c).store_eq hrenames,
    (Run.Reads.reportAll _).store_eq hnoted]

theorem writes_rename (c : Config) (paths : List Path) :
    Run.Writes [c.renamedJar] (rename c paths) := by
  refine .bind (Run.Reads.read _ _ |>.writes _) fun srg => ?_
  refine .bind (Run.Reads.reportAll _ |>.writes _) fun _ => ?_
  refine .bind (reads_loadRenames c |>.writes _) fun renames => ?_
  refine .bind (reads_loadAccess renames paths |>.writes _) fun access => ?_
  exact .bind ((writes_renameArchive _ access c.inJar c.renamedJar).mapFault _) fun _ =>
    (Run.Reads.pure _).writes _

/-- The patched sheet is all that patching writes. -/
theorem writes_patchSheet (c : Config) (paths : List Path) :
    Run.Writes c.patchedSheet.toList (patchSheet c paths) := by
  unfold patchSheet
  cases hsheet : c.exceptorSheet with
  | none => exact (Run.Reads.pure _).writes _
  | some source =>
    simp only [Config.patchedSheet, hsheet, Option.map_some, Option.toList_some]
    refine .bind ((Nesting.Sheet.reads_load source).mapFault _ |>.writes _) fun sheet => ?_
    refine .bind (Run.Reads.writes ?_ _) fun patched => (patched.writes_save _).mapFault _
    exact .foldlM (fun _ _ => .bind (.report _) fun _ => .bind (.read _ _) fun _ => .pure _) _ _

theorem writes_prepare (c : Config) :
    Run.Writes (c.renamedJar :: c.patchedSheet.toList) (prepare c) := by
  refine .bind ((Run.Writes.makeDirectories _ c.workDir).mono (by simp)) fun _ => ?_
  refine .bind (reads_transformers c |>.writes _) fun paths => ?_
  refine .bind (Run.Reads.report _ |>.writes _) fun _ => ?_
  refine .bind ((writes_rename c paths).mono (by simp)) fun _ => ?_
  exact .bind (Run.Reads.report _ |>.writes _) fun _ => (writes_patchSheet c paths).mono (by simp)

/-- What a run reads from the files that it starts with, once the work directory is made. -/
def Config.Reads (c : Config) (w : World) (srg : String) (entries : List Entry) : Prop :=
  ∃ s, Store.makeDirectories c.workDir w.store = .ok () s ∧ s.readText c.srg = .ok srg ∧
    s.content c.inJar = .ok (.archive entries)

theorem Config.Reads.unique {srg srg' : String} {entries entries' : List Entry}
    (h : c.Reads w srg entries) (h' : c.Reads w srg' entries') :
    srg = srg' ∧ entries = entries' := by
  obtain ⟨s, hmade, hsrg, hinput⟩ := h
  obtain ⟨s', hmade', hsrg', hinput'⟩ := h'
  cases hmade.symm.trans hmade'
  cases hinput.symm.trans hinput'
  exact ⟨Except.ok.inj (hsrg.symm.trans hsrg'), rfl⟩

theorem Config.getLast?_segments_renamedJar (c : Config) :
    c.renamedJar.segments.getLast? = some renamedName :=
  Path.getLast?_segments_join c.workDir (by decide)

/-- The patched sheet has its name wherever it is put. -/
theorem Config.getLast?_of_mem_placesOf_patchedSheet {s : Store} {place : Place}
    (h : place ∈ s.placesOf c.patchedSheet.toList) (hplace : place ≠ []) :
    place.getLast? = some patchedSheetName := by
  obtain ⟨path, hpath, hnamed⟩ := h
  obtain ⟨-, hsheet⟩ : (∃ source, c.exceptorSheet = some source) ∧
      Path.join c.workDir patchedSheetName = path := by
    simpa [Config.patchedSheet] using hpath
  rw [← hsheet] at hnamed
  exact Store.getLast?_of_place? hnamed hplace (Path.getLast?_segments_join c.workDir (by decide))
    (by decide)

/-- The renamed archive is in its place when the others work on it. -/
theorem prepare_eq_ok (h : prepare c w = .ok () w') :
    ∃ srg access entries outs, c.Reads w srg entries ∧
      List.Forall₂ (archiveJob (.load .empty srg) access entries).Makes entries outs ∧
      w'.store.content c.renamedJar = .ok (.archive (outs.flatten.map Entry.stored)) := by
  obtain ⟨_, made, hmade, hrest⟩ := estate_bind_eq_ok_iff.1 h
  obtain ⟨store, hstore, rfl⟩ := Run.onStore_eq_ok_iff.1 hmade
  obtain ⟨paths, found, hfound, hrest⟩ := estate_bind_eq_ok_iff.1 hrest
  obtain ⟨_, told, htold, hrest⟩ := estate_bind_eq_ok_iff.1 hrest
  obtain ⟨_, renamed, hrename, hrest⟩ := estate_bind_eq_ok_iff.1 hrest
  obtain ⟨_, again, hagain, hpatch⟩ := estate_bind_eq_ok_iff.1 hrest
  have hsame : told.store = store :=
    ((Run.Reads.report _).store_eq htold).trans ((reads_transformers c).store_eq hfound)
  obtain ⟨srg, access, before, done, hsrg, hbefore, hrun⟩ := rename_eq_ok hrename
  rw [hsame] at hsrg hbefore
  obtain ⟨entries, -, hinput, -⟩ := renameArchive_eq_ok_iff.1 hrun
  obtain ⟨outs, hall, hcontent⟩ := renameArchive_output hinput hrun
  refine ⟨srg, access, entries, outs, ⟨store, hstore, hsrg, hbefore ▸ hinput⟩, hall, ?_⟩
  rw [← (Run.Reads.report _).store_eq hagain] at hcontent
  refine ((writes_patchSheet c paths).evolves hpatch).content hcontent fun place hplace hmem => ?_
  have hlast := Store.getLast?_of_content hcontent c.getLast?_segments_renamedJar (by decide) place
    hplace
  have hnames : some renamedName = some patchedSheetName :=
    hlast.symm.trans (c.getLast?_of_mem_placesOf_patchedSheet hmem (by rintro rfl; simp at hlast))
  exact absurd hnames (by decide)

/-! ## Passing on -/

theorem writes_ensureParent (path : Path) : Run.Writes [] (ensureParent path) := by
  unfold ensureParent
  split
  · split
    · exact (Run.Reads.pure _).writes _
    · exact .makeDirectories _ _
  · exact (Run.Reads.pure _).writes _

theorem writes_copyThrough (request : Request) :
    Run.Writes [request.outJar] (copyThrough request) :=
  .bind ((writes_ensureParent _).mono (by simp)) fun _ => .copy _ _ _

/-- Where the archive cannot be passed on, no file is written. -/
theorem evolves_of_copyThrough_error {request : Request} {fault : Fault}
    (h : copyThrough request w = .error fault w') :
    Store.Evolves (w.store.placesOf []) w.store w'.store := by
  obtain hstop | ⟨_, made, hmade, hcopy⟩ := estate_bind_eq_error_iff.1 h
  · exact (writes_ensureParent _).evolves_of_error hstop
  · rw [Run.store_of_changeStore_error hcopy]
    exact (writes_ensureParent _).evolves hmade

theorem content_of_copyThrough {request : Request} {content : Content} {name : String}
    (h : copyThrough request w = .ok () w') (hcontent : w.store.content request.inJar = .ok content)
    (hlast : request.inJar.segments.getLast? = some name) (hdown : name ≠ "..")
    (hne : request.outJar.segments.getLast? ≠ some name) :
    w'.store.content request.outJar = .ok content := by
  obtain ⟨_, made, hmade, hcopy⟩ := estate_bind_eq_ok_iff.1 h
  obtain ⟨store, hstore, rfl⟩ := Run.changeStore_eq_ok_iff.1 hcopy
  have hkept := ((writes_ensureParent _).evolves hmade).content hcontent fun _ _ => by
    simp [Store.placesOf]
  exact Store.content_of_copy hstore hkept hlast hdown hne

theorem copyThrough_of_isFileName {request : Request} (hinput : Store.IsFileName request.inJar)
    (houtput : Store.IsFileName request.outJar) (hne : request.inJar ≠ request.outJar)
    {content : Content} (hnode : w.store.node? [request.inJar] = some (.file content))
    (hdir : w.store.node? [request.outJar] ≠ some .directory) :
    copyThrough request w = .ok () { w with
      store := (w.store.put [request.outJar] (.file (.bytes []))).put [request.outJar]
        (.file content) } := by
  have hparent : ensureParent request.outJar w = .ok () w := by
    rw [ensureParent, houtput.parent?]
    rfl
  exact estate_bind_eq_ok_iff.2 ⟨(), w, hparent, Run.changeStore_eq_ok_iff.2
    ⟨_, hinput.copy houtput hne hnode hdir, rfl⟩⟩

/-! ### Files in the working directory -/

/-- A configuration with all files in the working directory. -/
def plainConfig : Config where
  inJar := "in.jar"
  srg := "m.srg"
  exceptorConfig := "e.cfg"
  outCleanJar := "out.jar"
  workDir := ""
  stripSynthetics := true

/-- The files that it needs: an archive, and a mapping that renames nothing. -/
def plainWorld (entries : List Entry) : World where
  store := (holding "in.jar" entries).store.put ["m.srg"] (.file (.bytes []))

theorem isFileName_mapping : Store.IsFileName "m.srg" :=
  ⟨by decide, by decide, by decide, by simp⟩

theorem isFileName_renamed : Store.IsFileName "deobfed.jar" :=
  ⟨by decide, by decide, by decide, by simp⟩

theorem isFileName_postProcessed : Store.IsFileName "excepted.jar" :=
  ⟨by decide, by decide, by decide, by simp⟩

theorem node?_plainWorld (entries : List Entry) (name : String) :
    (plainWorld entries).store.node? [name] =
      if "m.srg" = name then some (.file (.bytes []))
      else if "in.jar" = name then some (.file (.archive entries)) else none := by
  simp [plainWorld, Store.node?_put_name, node?_holding]

theorem reads_plainConfig (entries : List Entry) :
    plainConfig.Reads (plainWorld entries) "" entries := by
  have hsrg : (plainWorld entries).store.content "m.srg" = .ok (.bytes []) :=
    isFileName_mapping.content (by simp [node?_plainWorld])
  have hinput : (plainWorld entries).store.content "in.jar" = .ok (.archive entries) :=
    isFileName_input.content (by simp [node?_plainWorld])
  refine ⟨_, Store.makeDirectories_empty _, ?_, hinput⟩
  rw [show plainConfig.srg = "m.srg" from rfl, Store.readText, hsrg]
  rfl

theorem prepare_plainConfig {entries : List Entry} {outs : List (List Entry)}
    (hall : List.Forall₂ (archiveJob .empty .empty entries).Makes entries outs) :
    ∃ w', prepare plainConfig (plainWorld entries) = .ok () w' ∧
      w'.store = ((plainWorld entries).store.put ["deobfed.jar"] (.file (.bytes []))).put
        ["deobfed.jar"] (.file (.archive (outs.flatten.map Entry.stored))) := by
  obtain ⟨store, hmade, hsrg, -⟩ := reads_plainConfig entries
  cases hmade.symm.trans (Store.makeDirectories_empty _)
  let told : World := { plainWorld entries with reports := [.renamingArchive] }
  have hinput : told.store.node? ["in.jar"] = some (.file (.archive entries)) := by
    simp [told, node?_plainWorld]
  obtain ⟨done, renamed, hrun, hstore⟩ := renameArchive_of_isFileName isFileName_input
    isFileName_renamed (by decide) hinput (by simp [told, node?_plainWorld]) hall
  have hrename : rename plainConfig [] told = .ok () renamed :=
    estate_bind_eq_ok_iff.2 ⟨"", told, Run.read_eq_ok_iff.2 ⟨hsrg, rfl⟩,
      estate_bind_eq_ok_iff.2 ⟨(), told, rfl, estate_bind_eq_ok_iff.2 ⟨.empty, told, rfl,
        estate_bind_eq_ok_iff.2 ⟨.empty, told, rfl, estate_bind_eq_ok_iff.2 ⟨done, renamed,
          Run.mapFault_eq_ok_iff.2 hrun, rfl⟩⟩⟩⟩⟩
  refine ⟨{ renamed with reports := .postProcessing :: renamed.reports }, ?_, hstore⟩
  exact estate_bind_eq_ok_iff.2 ⟨(), plainWorld entries, Run.onStore_eq_ok_iff.2 ⟨_, hmade, rfl⟩,
    estate_bind_eq_ok_iff.2 ⟨[], _, rfl, estate_bind_eq_ok_iff.2 ⟨(), told, rfl,
      estate_bind_eq_ok_iff.2 ⟨(), renamed, hrename, estate_bind_eq_ok_iff.2 ⟨(), _, rfl, rfl⟩⟩⟩⟩⟩

/-- Where all classes can be renamed, running the configuration is stripping what was passed on. -/
theorem run_plainConfig_eq {entries : List Entry} {outs : List (List Entry)}
    (hall : List.Forall₂ (archiveJob .empty .empty entries).Makes entries outs) :
    ∃ told, told.store.node? ["excepted.jar"] =
        some (.file (.archive (outs.flatten.map Entry.stored))) ∧
      told.store.node? ["out.jar"] = none ∧
      run plainConfig (plainWorld entries) =
        ((stripArchive "excepted.jar" "out.jar").mapFault .strip >>= fun _ => pure ()) told := by
  obtain ⟨prepared, hprepare, hstore⟩ := prepare_plainConfig hall
  have hrenamed : prepared.store.node? ["deobfed.jar"] =
      some (.file (.archive (outs.flatten.map Entry.stored))) := by
    simp only [hstore, Store.node?_put_name, if_true]
  have hnew (name : String) (hname : name ∉ ["deobfed.jar", "m.srg", "in.jar"]) :
      prepared.store.node? [name] = none := by
    simp only [hstore, Store.node?_put_name, node?_plainWorld]
    simp_all [eq_comm]
  have hpassed := copyThrough_of_isFileName
    (show Store.IsFileName plainConfig.request.inJar from isFileName_renamed)
    (show Store.IsFileName plainConfig.request.outJar from isFileName_postProcessed)
    (by decide) hrenamed (by rw [hnew _ (by decide)]; simp)
  let store := (prepared.store.put ["excepted.jar"] (.file (.bytes []))).put ["excepted.jar"]
    (.file (.archive (outs.flatten.map Entry.stored)))
  let passed : World := { prepared with store }
  let told : World := { passed with reports := .strippingArchive :: passed.reports }
  refine ⟨told, ?_, ?_, ?_⟩
  · simp only [told, passed, store, Store.node?_put_name, if_true]
  · simpa [told, passed, store, Store.node?_put_name] using hnew "out.jar" (by decide)
  · calc run plainConfig (plainWorld entries)
        = (copyThrough plainConfig.request >>= fun _ => finish plainConfig) prepared :=
          estate_bind_of_ok hprepare _
      _ = finish plainConfig passed := estate_bind_of_ok hpassed _
      _ = ((stripArchive "excepted.jar" "out.jar").mapFault .strip >>= fun _ => pure ()) told := rfl

/-- Where all classes can be renamed and stripped, the configuration can be run. -/
theorem run_plainConfig {entries : List Entry} {outs : List (List Entry)} {done : StrippingState}
    (hall : List.Forall₂ (archiveJob .empty .empty entries).Makes entries outs)
    (hstrip : stripAll (outs.flatten.map Entry.stored) {} = .ok () done) :
    ∃ w', run plainConfig (plainWorld entries) = .ok () w' := by
  obtain ⟨told, hinput, houtput, hrun⟩ := run_plainConfig_eq hall
  obtain ⟨w', hstripped⟩ := stripArchive_of_isFileName isFileName_postProcessed isFileName_output
    (by decide) hinput (by simp [houtput]) hstrip
  exact ⟨w', hrun ▸ estate_bind_eq_ok_iff.2 ⟨done.report, w',
    Run.mapFault_eq_ok_iff.2 hstripped, rfl⟩⟩

end Pipeline

end JarRefit
