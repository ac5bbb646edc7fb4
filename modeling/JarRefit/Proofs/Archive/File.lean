import JarRefit.Archive.File
import JarRefit.Proofs.Archive.Renaming
import JarRefit.Proofs.Files.World

/-!
# Renaming an archive into a file

Where an output can be made and the entries of the input can be read, the output holds what is
written for them, up to what a container keeps of an entry.

## Main definitions

* `Ready`: the output of an archive can be made, and then its entries can be read.
* `World.filled`: a file store with the entries of an archive put in a place.
* `holding`: a world with one archive.
-/
namespace JarRefit

open Files

/-- The store with the entries of an archive put in the place of a file, as a container keeps
them. -/
def Files.World.filled (w : World) (place : Place) (entries : List Archive.Entry) : World :=
  { w with store := w.store.put place (.file (.archive (entries.map Archive.Entry.stored))) }

namespace Archive

variable {w w' made : World} {place : Place} {path input output : Path} {entries : List Entry}

/-! ## Archives in files -/

theorem readArchive_eq_ok_iff : readArchive path w = .ok entries w' ↔
    w.store.content path = .ok (.archive entries) ∧ w' = w := by
  unfold readArchive
  split <;> grind

/-- The second store is the first one after the directories above a path were made, if it names
any. -/
def MadeAbove (path : Path) (s s' : Store) : Prop :=
  match path.parent? with
  | some parent => if parent = "" then s' = s else Store.makeDirectories parent s = .ok () s'
  | none => s' = s

theorem MadeAbove.evolves {s s' : Store} (h : MadeAbove path s s') : Store.Evolves ∅ s s' := by
  unfold MadeAbove at h
  split at h
  · split at h
    · exact h ▸ .refl ∅ s
    · exact stateAfter_of_ok h ▸ .makeDirectories _ s
  · exact h ▸ .refl ∅ s

/-- The file of a new archive is made after the directories above it. -/
theorem createArchive_eq_ok_iff : createArchive path w = .ok place w' ↔
    ∃ above store, MadeAbove path w.store above ∧
      above.create path (.bytes []) = .ok (place, store) ∧ w' = { w with store } := by
  unfold createArchive MadeAbove
  cases path.parent? with
  | none => simp [Run.ofStore_eq_ok_iff]
  | some parent =>
    by_cases hempty : parent = ""
    · simp [hempty, Run.ofStore_eq_ok_iff]
    · simp [hempty, estate_bind_eq_ok_iff, Run.onStore_eq_ok_iff, Run.ofStore_eq_ok_iff,
        Unique.exists_iff]

theorem createArchive_eq_ok (h : createArchive path w = .ok place w') :
    ∃ store, Store.Evolves ∅ w.store store ∧
      store.create path (.bytes []) = .ok (place, w'.store) := by
  obtain ⟨above, store, habove, hcreate, rfl⟩ := createArchive_eq_ok_iff.1 h
  exact ⟨above, habove.evolves, hcreate⟩

/-- Reports have no part in making a file. -/
theorem createArchive_reports (h : createArchive path w = .ok place made) (reports : List Notice) :
    createArchive path { w with reports } = .ok place { made with reports } := by
  obtain ⟨above, store, habove, hcreate, rfl⟩ := createArchive_eq_ok_iff.1 h
  exact createArchive_eq_ok_iff.2 ⟨above, store, habove, hcreate, rfl⟩

theorem evolves_createArchive (h : createArchive path w = .ok place w') :
    Store.Evolves {place} w.store w'.store := by
  obtain ⟨store, hevolves, hcreate⟩ := createArchive_eq_ok h
  exact (hevolves.mono (Set.empty_subset _)).trans (.create hcreate)

/-- A new archive stands at the place that its path names. -/
theorem place?_of_createArchive (h : createArchive path w = .ok place w') :
    w.store.place? path = some place := by
  obtain ⟨store, hevolves, hcreate⟩ := createArchive_eq_ok h
  rw [← Store.place?_congr hevolves.root]
  exact Store.place?_of_create hcreate

/-- What is put in the place of a new archive is the content of its file. -/
theorem content_filled (h : createArchive path w = .ok place made) (entries : List Entry) :
    (made.filled place entries).store.content path =
      .ok (.archive (entries.map Entry.stored)) := by
  obtain ⟨store, -, hcreate⟩ := createArchive_eq_ok h
  exact Store.content_of_create_put hcreate _

/-- Filling a new archive touches the place that its path names. -/
theorem evolves_filled (h : createArchive path w = .ok place made) (entries : List Entry) :
    Store.Evolves (w.store.placesOf [path]) w.store (made.filled place entries).store := by
  obtain ⟨store, hevolves, hcreate⟩ := createArchive_eq_ok h
  rw [← Store.placesOf_congr hevolves.root]
  exact (hevolves.mono (Set.empty_subset _)).trans (.of_create_put hcreate _)

/-- An archive that cannot be made leaves new directories at most. -/
theorem evolves_of_createArchive_error {fault : FileFault}
    (h : createArchive path w = .error fault w') :
    Store.Evolves (w.store.placesOf []) w.store w'.store := by
  have hstay {w : World} (h : Run.ofStore (.io path) (fun s => s.create path (.bytes [])) w =
      .error fault w') : Store.Evolves (w.store.placesOf []) w.store w'.store :=
    Run.store_of_ofStore_error h ▸ .refl _ _
  unfold createArchive at h
  cases hparent : path.parent? with
  | none =>
    simp only [hparent] at h
    exact hstay h
  | some parent =>
    simp only [hparent] at h
    split at h
    · obtain hstop | ⟨_, middle, hmade, hcreate⟩ := estate_bind_eq_error_iff.1 h
      · exact (Run.Writes.makeDirectories _ parent).evolves_of_error hstop
      · have hevolves := (Run.Writes.makeDirectories _ parent).evolves hmade
        rw [Run.store_of_ofStore_error hcreate]
        exact hevolves
    · exact hstay h

/-! ## Renaming -/

/-- The output can be made, and then the entries of the input can be read. -/
def Ready (w : World) (input output : Path) (entries : List Entry) : Prop :=
  ∃ place made, createArchive output w = .ok place made ∧
    rereadArchive input entries made = .ok () made

theorem rereadArchive_eq_ok (h : rereadArchive input entries w = .ok () w') : w' = w := by
  unfold rereadArchive at h
  split at h <;> cases h <;> rfl

/-- An output that does not take the place of the input leaves the input to be read. -/
theorem ready_of_ne (hinput : w.store.content input = .ok (.archive entries))
    (hmade : createArchive output w = .ok place made) (hne : w.store.resolve input ≠ .ok place) :
    Ready w input output entries := by
  have hkept : made.store.content input = .ok (.archive entries) :=
    (evolves_createArchive hmade).content hinput fun q hq hmem => hne (hmem ▸ hq)
  refine ⟨place, made, hmade, ?_⟩
  unfold rereadArchive
  rw [hkept]
  cases entries <;> rfl

theorem rereadArchive_reports (h : rereadArchive input entries made = .ok () made)
    (reports : List Notice) :
    rereadArchive input entries { made with reports } = .ok () { made with reports } := by
  unfold rereadArchive at h ⊢
  split at h <;> simp_all

/-- Reports have no part in it. -/
theorem Ready.reports (h : Ready w input output entries) (reports : List Notice) :
    Ready { w with reports } input output entries := by
  obtain ⟨place, made, hmade, hread⟩ := h
  exact ⟨place, { made with reports }, createArchive_reports hmade reports,
    rereadArchive_reports hread reports⟩

variable {job : RenamingJob} {done : RenamingState}

theorem renameEntries_of_made (hmade : createArchive output w = .ok place made)
    (hread : rereadArchive input entries made = .ok () made) :
    renameEntries job input entries output w =
      match job.renameAll entries {} with
      | .error fault done => .error (.entry fault) (made.filled place done.written.reverse)
      | .ok _ done => .ok done (made.filled place done.written.reverse) := by
  simp only [renameEntries, bind, EStateM.bind, Run.mapFault, hmade, estate_get_eq, hread]
  cases job.renameAll entries {} <;> rfl

theorem renameEntries_eq_ok (h : renameEntries job input entries output w = .ok done w') :
    ∃ place made, createArchive output w = .ok place made ∧
      rereadArchive input entries made = .ok () made ∧
      job.renameAll entries {} = .ok () done ∧ w' = made.filled place done.written.reverse := by
  obtain ⟨place, made, hmade, hrest⟩ := estate_bind_eq_ok_iff.1 h
  rw [Run.mapFault_eq_ok_iff] at hmade
  obtain ⟨_, _, hget, hrest⟩ := estate_bind_eq_ok_iff.1 hrest
  cases hget
  cases hread : rereadArchive input entries made with
  | error fault again =>
    simp only [hread] at hrest
    obtain ⟨_, _, -, hthrow⟩ := estate_bind_eq_ok_iff.1 hrest
    cases hthrow
  | ok _ again =>
    obtain rfl := rereadArchive_eq_ok hread
    rw [renameEntries_of_made hmade hread] at h
    cases hrun : job.renameAll entries {} with
    | error fault done => simp [hrun] at h
    | ok _ finished =>
      rw [hrun] at h
      cases h
      exact ⟨place, again, hmade, hread, rfl, rfl⟩

/-- Renaming entries touches the output only, whatever ends it. -/
theorem writes_renameEntries (job : RenamingJob) (input : Path) (entries : List Entry)
    (output : Path) : Run.Writes [output] (renameEntries job input entries output) := by
  intro w
  cases hmade : createArchive output w with
  | error fault left =>
    have hstop : renameEntries job input entries output w = .error (.file fault) left := by
      simp [renameEntries, bind, EStateM.bind, Run.mapFault, hmade]
    rw [stateAfter_of_error hstop]
    exact (evolves_of_createArchive_error hmade).mono (Store.placesOf_mono (by simp))
  | ok place made =>
    -- The output holds what was written before the run ended, if it was anything.
    have hfilled : ∃ written, (stateAfter (renameEntries job input entries output) w).store =
        (made.filled place written).store := by
      cases hread : rereadArchive input entries made with
      | error fault again =>
        refine ⟨[], ?_⟩
        simp only [stateAfter, renameEntries, bind, EStateM.bind, Run.mapFault, hmade,
          estate_get_eq, hread]
        rfl
      | ok _ again =>
        obtain rfl := rereadArchive_eq_ok hread
        rw [stateAfter, renameEntries_of_made hmade hread]
        cases job.renameAll entries {} <;> exact ⟨_, rfl⟩
    obtain ⟨written, hstore⟩ := hfilled
    rw [hstore]
    exact evolves_filled hmade written

/-! ## Renaming along the hierarchy of an archive -/

/-- What renaming the archive of some entries goes by: members are looked up along the hierarchy
that the entries declare. -/
def archiveJob (mapping : Naming.SymbolMapping) (access : Access.Table) (entries : List Entry) :
    RenamingJob where
  mapping := { mapping with hierarchy := some ⟨[parentTable entries]⟩ }
  access := access

variable {mapping : Naming.SymbolMapping} {access : Access.Table}

/-- Renaming an archive is renaming its entries, but for the reports. -/
theorem renameArchive_eq_ok_iff :
    renameArchive mapping access input output w = .ok done w' ↔
      ∃ entries middle, w.store.content input = .ok (.archive entries) ∧
        renameEntries (archiveJob mapping access entries) input entries output
          { w with reports := (hierarchyNotices entries).reverse ++ w.reports } = .ok done middle ∧
        w' = { middle with
          reports :=
            .archiveRenamed input output done.classes done.resources :: middle.reports } := by
  constructor
  · intro h
    obtain ⟨entries, _, hread, hrest⟩ := estate_bind_eq_ok_iff.1 h
    rw [Run.mapFault_eq_ok_iff] at hread
    obtain ⟨hinput, rfl⟩ := readArchive_eq_ok_iff.1 hread
    obtain ⟨_, _, hreported, hrest⟩ := estate_bind_eq_ok_iff.1 hrest
    cases hreported
    obtain ⟨_, middle, hentries, hrest⟩ := estate_bind_eq_ok_iff.1 hrest
    obtain ⟨_, _, hreported, hdone⟩ := estate_bind_eq_ok_iff.1 hrest
    cases hreported
    obtain ⟨rfl, rfl⟩ := estate_pure_eq_ok_iff.1 hdone
    exact ⟨entries, middle, hinput, hentries, rfl⟩
  · rintro ⟨entries, middle, hinput, hentries, rfl⟩
    refine estate_bind_eq_ok_iff.2 ⟨entries, w,
      Run.mapFault_eq_ok_iff.2 (readArchive_eq_ok_iff.2 ⟨hinput, rfl⟩), ?_⟩
    exact estate_bind_eq_ok_iff.2 ⟨(), _, rfl, estate_bind_eq_ok_iff.2 ⟨done, middle, hentries,
      estate_bind_eq_ok_iff.2 ⟨(), _, rfl, rfl⟩⟩⟩

theorem reads_readArchive (path : Path) : Run.Reads (readArchive path) := by
  intro w
  simp only [stateAfter, readArchive]
  split <;> grind

theorem writes_renameArchive (mapping : Naming.SymbolMapping) (access : Access.Table)
    (input output : Path) : Run.Writes [output] (renameArchive mapping access input output) := by
  refine .bind ((reads_readArchive input).mapFault _ |>.writes _) fun entries => ?_
  refine .bind (Run.Reads.reportAll _ |>.writes _) fun _ => ?_
  refine .bind (writes_renameEntries _ input entries output) fun done => ?_
  exact .bind (Run.Reads.report _ |>.writes _) fun _ => (Run.Reads.pure done).writes _

/-! ## Archives in the working directory -/

theorem createArchive_of_isFileName (h : Store.IsFileName path)
    (hnode : w.store.node? [path] ≠ some .directory) :
    createArchive path w =
      .ok [path] { w with store := w.store.put [path] (.file (.bytes [])) } := by
  simp [createArchive, h.parent?, Run.ofStore, h.create hnode]

/-- An archive in the working directory can be read while another one is made there. -/
theorem made_of_isFileName (hinput : Store.IsFileName input) (houtput : Store.IsFileName output)
    (hne : input ≠ output) (hnode : w.store.node? [input] = some (.file (.archive entries)))
    (hdir : w.store.node? [output] ≠ some .directory) :
    ∃ made, createArchive output w = .ok [output] made ∧
      rereadArchive input entries made = .ok () made ∧
      ∀ written, (made.filled [output] written).store =
        (w.store.put [output] (.file (.bytes []))).put [output]
          (.file (.archive (written.map Entry.stored))) := by
  have hmade := createArchive_of_isFileName houtput hdir
  obtain ⟨place, made, hmade', hread⟩ := ready_of_ne (hinput.content hnode) hmade (by
    rw [hinput.resolve (by simp [hnode])]
    simp [hne])
  cases hmade.symm.trans hmade'
  exact ⟨_, hmade, hread, fun _ => rfl⟩

/-- A world with nothing but an archive in its working directory. -/
def holding (name : String) (entries : List Entry) : World where
  store.root := "/"
  store.nodes := (∅ : Std.HashMap Place Node).insert [name] (.file (.archive entries))

theorem node?_holding (name : String) (entries : List Entry) (other : String) :
    (holding name entries).store.node? [other] =
      if name = other then some (.file (.archive entries)) else none := by
  simp [holding, Store.node?, Std.HashMap.getElem?_insert]

theorem content_holding (hinput : Store.IsFileName input) (entries : List Entry) :
    (holding input entries).store.content input = .ok (.archive entries) :=
  hinput.content (by simp [node?_holding])

theorem isFileName_input : Store.IsFileName "in.jar" :=
  ⟨by decide, by decide, by decide, by simp⟩

theorem isFileName_output : Store.IsFileName "out.jar" :=
  ⟨by decide, by decide, by decide, by simp⟩

theorem ready_holding (hinput : Store.IsFileName input) (houtput : Store.IsFileName output)
    (hne : input ≠ output) (entries : List Entry) :
    Ready (holding input entries) input output entries := by
  have hnode : (holding input entries).store.node? [input] = some (.file (.archive entries)) := by
    simp [node?_holding]
  obtain ⟨made, hmade, hread, -⟩ := made_of_isFileName hinput houtput hne hnode
    (by simp [node?_holding, hne])
  exact ⟨_, made, hmade, hread⟩

end Archive

end JarRefit
