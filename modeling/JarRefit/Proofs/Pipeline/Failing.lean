import JarRefit.Proofs.Archive.Filtering
import JarRefit.Proofs.Pipeline.Stages

/-!
# Runs that fail

A run without a program of its own between renaming and stripping leaves its output alone when it
fails, with one exception: stripping makes the output before it comes to the class files, so one
that cannot be stripped leaves an output with the entries before it.

## Main definitions

* `Config.intermediates`: the files that a run writes besides its output.
* `Config.OutputApart`: the output is none of them.
* `Config.OutputKept`: a store still has the output of another one, or none where that has none.
-/
namespace JarRefit.Pipeline

open Archive ClassFile Files Naming Renaming

variable {c : Config} {w w' : World} {s s' : Store} {fault : Fault}

namespace Config

/-- The files that a run writes besides its output. -/
def intermediates (c : Config) : List Path :=
  c.renamedJar :: (c.patchedSheet.toList ++
    if c.stripSynthetics then [c.postProcessedJar] else [])

/-- The path of the output does not name the place of an intermediate file. -/
def OutputApart (c : Config) (s : Store) : Prop :=
  ∀ place, s.place? c.outputJar = some place → place ∉ s.placesOf c.intermediates

/-- The second store has the output that the first one has: its path still leads to the same file,
and no other file has come up at its place. -/
structure OutputKept (c : Config) (s s' : Store) : Prop where
  content : ∀ content, s.content c.outputJar = .ok content → s'.content c.outputJar = .ok content
  file?_eq : ∀ place, s.place? c.outputJar = some place → s'.file? place = s.file? place

theorem OutputApart.congr (hapart : c.OutputApart s) (hroot : s'.root = s.root) :
    c.OutputApart s' := by
  intro place hplace
  rw [Store.place?_congr hroot] at hplace
  rw [Store.placesOf_congr hroot]
  exact hapart place hplace

theorem OutputApart.kept (hapart : c.OutputApart s)
    (h : Store.Evolves (s.placesOf c.intermediates) s s') : c.OutputKept s s' where
  content _ hcontent := h.content hcontent fun place hplace =>
    hapart place (Store.place?_of_resolve hplace)
  file?_eq place hplace := h.file?_eq (hapart place hplace)

end Config

theorem finish_eq_error (h : finish c w = .error fault w') : c.stripSynthetics = true ∧
    ∃ told failure, told.store = w.store ∧ fault = .strip failure ∧
      stripArchive c.postProcessedJar c.outputJar told = .error failure w' := by
  rw [finish] at h
  split at h
  · next hstrip =>
    let told : World := { w with reports := .strippingArchive :: w.reports }
    have hrest : ((stripArchive c.postProcessedJar c.outputJar).mapFault Fault.strip >>=
        fun _ => pure ()) told = .error fault w' := h
    obtain hstop | ⟨_, _, -, hdone⟩ := estate_bind_eq_error_iff.1 hrest
    · obtain ⟨failure, hstripped, rfl⟩ := Run.mapFault_eq_error_iff.1 hstop
      exact ⟨hstrip, told, failure, rfl, rfl, hstripped⟩
    · cases hdone
  · cases h

/-- A run that fails leaves its output as it was, unless it comes to a class file that it cannot
strip: then the output holds what stripping makes of the entries before it. -/
theorem run_failed_output (hpost : c.exceptor = none) (hapart : c.OutputApart w.store)
    (h : run c w = .error fault w') :
    c.OutputKept w.store w'.store ∨
      ∃ stopped before e rest, c.stripSynthetics = true ∧ fault = .strip (.entry stopped) ∧
        w'.store.content c.postProcessedJar = .ok (.archive (before ++ e :: rest)) ∧
        (∀ x ∈ before, x.Strippable) ∧ e.StopsStripping stopped ∧
        w'.store.content c.outputJar = .ok (.archive ((stripEntries before).map Entry.stored)) := by
  have hnothing (s : Store) : s.placesOf [] ⊆ s.placesOf c.intermediates :=
    Store.placesOf_mono (List.nil_subset _)
  have hprepares : Run.Writes c.intermediates (prepare c) :=
    (writes_prepare c).mono (by simp [Config.intermediates])
  obtain hstop | ⟨_, prepared, hprepare, hrest⟩ := estate_bind_eq_error_iff.1 h
  · exact .inl (hapart.kept (hprepares.evolves_of_error hstop))
  have hprepared := hprepares.evolves hprepare
  rw [Config.postProcessor, hpost] at hrest
  obtain hstop | ⟨_, passed, hpassed, hfinish⟩ := estate_bind_eq_error_iff.1 hrest
  · exact .inl (hapart.kept (hprepared.trans_placesOf
      ((evolves_of_copyThrough_error hstop).mono (hnothing _))))
  -- Without stripping nothing can fail from here on: the output is made last.
  obtain ⟨hstrip, told, failure, htold, rfl, hstripped⟩ := finish_eq_error hfinish
  have hmem : c.postProcessedJar ∈ c.intermediates := by simp [Config.intermediates, hstrip]
  have hpasses : Run.Writes c.intermediates (copyThrough c.request) :=
    (writes_copyThrough c.request).mono (List.cons_subset.2 ⟨hmem, List.nil_subset _⟩)
  have hready : Store.Evolves (w.store.placesOf c.intermediates) w.store told.store :=
    htold ▸ hprepared.trans_placesOf (hpasses.evolves hpassed)
  have hinput_ne (place : Place) (hplace : told.store.place? c.outputJar = some place) :
      told.store.place? c.postProcessedJar ≠ some place := fun hinput =>
    hapart.congr hready.root place hplace ⟨_, hmem, hinput⟩
  obtain hleft | ⟨before, e, rest, stopped, rfl, hinput, hall, hstops, houtput⟩ :=
    stripArchive_eq_error hinput_ne hstripped
  · exact .inl (hapart.kept (hready.trans_placesOf (hleft.mono (hnothing _))))
  · exact .inr ⟨stopped, before, e, rest, hstrip, rfl, hinput, hall, hstops, houtput⟩

/-! ### A class whose superclass is none -/

/-- The class `f` with a text where its superclass is told. -/
def orphan : ClassFile :=
  { bareClass "f" with superClass := 1 }

def orphanFile : Entry :=
  .file "f.class" orphan.encode heirTime

def orphanFault : StrippingFault :=
  ⟨"f.class", .badIndex 1⟩

def orphanEntries : List Entry :=
  [.file "lib/f.txt" [102] heirTime, orphanFile]

theorem decode_encode_orphan : decode orphan.encode = .ok orphan := by
  rfl

theorem name_orphan : orphan.name = .ok "f" :=
  name_bareClass "f"

theorem rename_orphan {m : SymbolMapping} (hname : m.renameClass "f" = "f") :
    orphan.rename m = .ok "f" orphan := by
  have hrename := rename_eq_self (by decide) name_orphan (plan_bareClass (by decide) hname) rfl
  rwa [hname] at hrename

theorem makes_orphanEntries :
    List.Forall₂ (archiveJob .empty .empty orphanEntries).Makes orphanEntries
      [[.file "lib/f.txt" [102] heirTime], [orphanFile]] := by
  have hname := renameClass_archiveJob_empty orphanEntries "f"
  have hmakes : (archiveJob .empty .empty orphanEntries).Makes orphanFile [orphanFile] :=
    .of_unchanged (by decide) decode_encode_orphan name_orphan hname (rename_orphan hname)
      (widen_of_memberless name_orphan rfl rfl)
  exact .cons (.resource (by decide)) (.cons hmakes .nil)

theorem stopsStripping_orphanFile : orphanFile.StopsStripping orphanFault :=
  ⟨by decide, by decide, rfl, rfl⟩

/-- The text is all that the output holds when the run fails. -/
theorem run_orphanEntries : ∃ w',
    run plainConfig (plainWorld orphanEntries) = .error (.strip (.entry orphanFault)) w' ∧
      w'.store.file? ["out.jar"] = some (.archive [.file "lib/f.txt" [102] heirTime]) := by
  obtain ⟨told, hinput, houtput, hrun⟩ := run_plainConfig_eq makes_orphanEntries
  obtain ⟨made, hmade, hread, hstore⟩ := made_of_isFileName isFileName_postProcessed
    isFileName_output (by decide) hinput (by simp [houtput])
  have hstored : [[Entry.file "lib/f.txt" [102] heirTime], [orphanFile]].flatten.map Entry.stored =
      [.file "lib/f.txt" [102] heirTime] ++ orphanFile :: [] := by decide
  have hbefore : ∀ x ∈ [Entry.file "lib/f.txt" [102] heirTime], x.Strippable :=
    List.forall_mem_singleton.2 fun _ hcls => absurd hcls (by decide)
  have hstopped := stripArchive_of_made (isFileName_postProcessed.content hinput) hmade hread
  rw [hstored, stripAll_of_stops hbefore stopsStripping_orphanFile] at hstopped
  refine ⟨_, hrun ▸ estate_bind_eq_error_iff.2
    (.inl (Run.mapFault_eq_error_iff.2 ⟨_, hstopped, rfl⟩)), ?_⟩
  rw [Store.file?_eq_some_iff, hstore, Store.node?_put_name, if_pos rfl]
  rfl

theorem outputApart_plainConfig (s : Store) : plainConfig.OutputApart s := by
  have hother (name : String) (hname : Store.IsFileName name) (hne : name ≠ "out.jar") :
      s.place? name ≠ some ["out.jar"] := by
    rw [hname.place?]
    simpa using hne
  rintro place hplace ⟨path, hpath, hnamed⟩
  have hpaths : plainConfig.intermediates = ["deobfed.jar", "excepted.jar"] := rfl
  obtain rfl := Option.some.inj (isFileName_output.place?.symm.trans hplace)
  rcases List.mem_pair.1 (hpaths ▸ hpath) with rfl | rfl
  · exact hother _ isFileName_renamed (by decide) hnamed
  · exact hother _ isFileName_postProcessed (by decide) hnamed

theorem file?_output_plainWorld (entries : List Entry) :
    (plainWorld entries).store.file? ["out.jar"] = none := by
  simp [Store.file?, node?_plainWorld]

theorem not_outputKept_of_file? {content : Content} (hnone : s.file? ["out.jar"] = none)
    (hmade : s'.file? ["out.jar"] = some content) : ¬ plainConfig.OutputKept s s' := by
  intro hkept
  have hsame := hkept.file?_eq ["out.jar"] isFileName_output.place?
  rw [hmade, hnone] at hsame
  cases hsame

theorem run_failed_output_orphanEntries :
    plainConfig.exceptor = none ∧ plainConfig.OutputApart (plainWorld orphanEntries).store ∧
      ∃ w', run plainConfig (plainWorld orphanEntries) =
          .error (.strip (.entry orphanFault)) w' ∧
        ∃ before e rest, w'.store.content "excepted.jar" = .ok (.archive (before ++ e :: rest)) ∧
          e.StopsStripping orphanFault ∧
          w'.store.content "out.jar" =
            .ok (.archive ((stripEntries before).map Entry.stored)) := by
  have hapart := outputApart_plainConfig (plainWorld orphanEntries).store
  obtain ⟨w', hrun, hmade⟩ := run_orphanEntries
  refine ⟨rfl, hapart, w', hrun, ?_⟩
  obtain hkept | ⟨_, before, e, rest, -, hfault, hinput, -, hstops, houtput⟩ :=
    run_failed_output rfl hapart hrun
  · exact absurd hkept (not_outputKept_of_file? (file?_output_plainWorld _) hmade)
  · cases hfault
    exact ⟨before, e, rest, hinput, hstops, houtput⟩

/-- The output is none of the files that the run reads or writes before, and yet the run that fails
makes it. -/
theorem not_outputKept_orphanEntries :
    plainConfig.exceptor = none ∧ plainConfig.OutputApart (plainWorld orphanEntries).store ∧
      plainConfig.outputJar ∉ [plainConfig.inJar, plainConfig.srg, plainConfig.exceptorConfig] ∧
      ∃ fault w', run plainConfig (plainWorld orphanEntries) = .error fault w' ∧
        (plainWorld orphanEntries).store.file? ["out.jar"] = none ∧
        w'.store.file? ["out.jar"] = some (.archive [.file "lib/f.txt" [102] heirTime]) ∧
        ¬ plainConfig.OutputKept (plainWorld orphanEntries).store w'.store := by
  obtain ⟨w', hrun, hmade⟩ := run_orphanEntries
  have hnone := file?_output_plainWorld orphanEntries
  exact ⟨rfl, outputApart_plainConfig _, by decide, _, w', hrun, hnone, hmade,
    not_outputKept_of_file? hnone hmade⟩

end JarRefit.Pipeline
