import JarRefit.Proofs.Archive.Order
import JarRefit.Proofs.Archive.Stripping
import JarRefit.Proofs.ClassFile.Stripping

/-!
# Stripping as a filter

Stripping an archive takes its metadata out and leaves the other entries in their order, each with
the data that its class file has without synthetic markers. It succeeds just if every class file
that is no metadata can be stripped by itself, and otherwise ends at the first one that cannot.

## Main definitions

* `Entry.Strippable`, `Entry.StopsStripping`: an entry that stripping gets past, or ends at.
* `stripEntries`: what it writes for some entries.
* `StrippingState.after`: the state of a run behind some entries.
-/
namespace JarRefit.Archive

open ClassFile Files

namespace Entry

/-- A class file that can be stripped, or an entry that need not be. -/
def Strippable (e : Entry) : Prop :=
  e.isMetadata = false → e.isClass = true → ∃ data?, stripBytes? e.data = .ok data?

/-- A class file that cannot be stripped, and the fault that it ends a run with. -/
def StopsStripping (e : Entry) (fault : StrippingFault) : Prop :=
  e.isMetadata = false ∧ e.isClass = true ∧ fault.entry = e.name ∧
    stripBytes? e.data = .error fault.fault

/-- The bytes of a class file that are written anew. -/
def newData? (e : Entry) : Option (List UInt8) :=
  if e.isClass then (stripBytes? e.data).toOption.join else none

/-- The entry with its class file stripped. -/
def strip (e : Entry) : Entry :=
  { e with data := e.newData?.getD e.data }

def isRewritten (e : Entry) : Bool :=
  !e.isMetadata && e.newData?.isSome

def isCopied (e : Entry) : Bool :=
  !e.isMetadata && e.newData?.isNone

theorem strippable_or_stops (e : Entry) : e.Strippable ∨ ∃ fault, e.StopsStripping fault := by
  cases hstrip : stripBytes? e.data with
  | ok data? => exact .inl fun _ _ => ⟨data?, hstrip⟩
  | error fault =>
    by_cases h : e.isMetadata = false ∧ e.isClass = true
    · exact .inr ⟨⟨e.name, fault⟩, h.1, h.2, rfl, hstrip⟩
    · exact .inl fun hmeta hcls => absurd ⟨hmeta, hcls⟩ h

end Entry

/-- What stripping writes for entries. -/
def stripEntries (entries : List Entry) : List Entry :=
  (entries.filter fun e => !e.isMetadata).map Entry.strip

/-- The state behind some more entries. -/
def StrippingState.after (s : StrippingState) (entries : List Entry) : StrippingState where
  written := (stripEntries entries).reverse ++ s.written
  report := { s.report with
    classesRewritten := s.report.classesRewritten + entries.countP Entry.isRewritten
    metadataDropped := s.report.metadataDropped + entries.countP Entry.isMetadata
    entriesCopied := s.report.entriesCopied + entries.countP Entry.isCopied }

variable {e : Entry} {entries before rest : List Entry} {s s' : StrippingState}
  {fault : StrippingFault}

/-! ## Entries -/

@[simp]
theorem StrippingState.after_nil (s : StrippingState) : s.after [] = s := rfl

theorem StrippingState.after_after (s : StrippingState) (entries entries' : List Entry) :
    (s.after entries).after entries' = s.after (entries ++ entries') := by
  simp [after, stripEntries, Nat.add_assoc]

theorem Entry.Strippable.stripEntry (h : e.Strippable) (s : StrippingState) :
    stripEntry e s = .ok () (s.after [e]) := by
  unfold Archive.stripEntry
  cases hmeta : e.isMetadata with
  | true =>
    simp [StrippingState.after, stripEntries, hmeta, Entry.isRewritten, Entry.isCopied]
  | false =>
    cases hcls : e.isClass with
    | false =>
      simp [StrippingState.after, stripEntries, hmeta, hcls, Entry.isRewritten, Entry.isCopied,
        Entry.strip, Entry.newData?]
    | true =>
      obtain ⟨data?, hstrip⟩ := h hmeta hcls
      cases data? <;>
        simp [StrippingState.after, stripEntries, hmeta, hcls, hstrip, Entry.isRewritten,
          Entry.isCopied, Entry.strip, Entry.newData?, Except.toOption]

theorem Entry.StopsStripping.stripEntry (h : e.StopsStripping fault) (s : StrippingState) :
    stripEntry e s = .error fault s := by
  obtain ⟨hmeta, hcls, hname, hstrip⟩ := h
  simp [Archive.stripEntry, hmeta, hcls, hstrip, ← hname]

/-! ## A run over entries -/

theorem stripAll_cons (e : Entry) (entries : List Entry) :
    stripAll (e :: entries) = stripEntry e >>= fun _ => stripAll entries := rfl

/-- A run gets past strippable entries and has written what stripping makes of them. -/
theorem stripAll_append (h : ∀ e ∈ before, e.Strippable) (rest : List Entry)
    (s : StrippingState) : stripAll (before ++ rest) s = stripAll rest (s.after before) := by
  induction before generalizing s with
  | nil => rfl
  | cons e before ih =>
    rw [List.forall_mem_cons] at h
    calc stripAll (e :: (before ++ rest)) s
        = stripAll (before ++ rest) (s.after [e]) := by
          simp [stripAll_cons, bind, EStateM.bind, h.1.stripEntry s]
      _ = stripAll rest ((s.after [e]).after before) := ih h.2 _
      _ = stripAll rest (s.after (e :: before)) := by rw [StrippingState.after_after]; rfl

theorem stripAll_of_strippable (h : ∀ e ∈ entries, e.Strippable) (s : StrippingState) :
    stripAll entries s = .ok () (s.after entries) := by
  have hrun := stripAll_append h [] s
  rwa [List.append_nil] at hrun

theorem stripAll_of_stops (h : ∀ e ∈ before, e.Strippable) (hstops : e.StopsStripping fault)
    (rest : List Entry) (s : StrippingState) :
    stripAll (before ++ e :: rest) s = .error fault (s.after before) := by
  rw [stripAll_append h, stripAll_cons]
  simp [bind, EStateM.bind, hstops.stripEntry]

/-- All entries are strippable, or there is a first one that ends a run. -/
theorem strippable_all_or_stops (entries : List Entry) : (∀ e ∈ entries, e.Strippable) ∨
    ∃ before e rest fault, entries = before ++ e :: rest ∧ (∀ x ∈ before, x.Strippable) ∧
      e.StopsStripping fault := by
  induction entries with
  | nil => exact .inl (by simp)
  | cons e entries ih =>
    rcases e.strippable_or_stops with hstrippable | ⟨fault, hstops⟩
    · rcases ih with hall | ⟨before, e', rest, fault, rfl, hall, hstops⟩
      · exact .inl (List.forall_mem_cons.2 ⟨hstrippable, hall⟩)
      · exact .inr ⟨e :: before, e', rest, fault, rfl,
          List.forall_mem_cons.2 ⟨hstrippable, hall⟩, hstops⟩
    · exact .inr ⟨[], e, entries, fault, rfl, by simp, hstops⟩

theorem stripAll_eq_error_iff : stripAll entries s = .error fault s' ↔
    ∃ before e rest, entries = before ++ e :: rest ∧ (∀ x ∈ before, x.Strippable) ∧
      e.StopsStripping fault ∧ s' = s.after before := by
  constructor
  · intro h
    rcases strippable_all_or_stops entries with hall | ⟨before, e, rest, _, rfl, hall, hstops⟩
    · cases (stripAll_of_strippable hall s).symm.trans h
    · cases (stripAll_of_stops hall hstops rest s).symm.trans h
      exact ⟨before, e, rest, rfl, hall, hstops, rfl⟩
  · rintro ⟨before, e, rest, rfl, hall, hstops, rfl⟩
    exact stripAll_of_stops hall hstops rest s

theorem stripAll_eq_ok_iff : stripAll entries s = .ok () s' ↔
    (∀ e ∈ entries, e.Strippable) ∧ s' = s.after entries := by
  constructor
  · intro h
    rcases strippable_all_or_stops entries with hall | ⟨before, e, rest, _, rfl, hall, hstops⟩
    · cases (stripAll_of_strippable hall s).symm.trans h
      exact ⟨hall, rfl⟩
    · cases (stripAll_of_stops hall hstops rest s).symm.trans h
  · rintro ⟨hall, rfl⟩
    exact stripAll_of_strippable hall s

/-! ## What is counted and kept -/

/-- Every entry is metadata, rewritten or copied. -/
theorem countP_strip (entries : List Entry) :
    entries.countP Entry.isMetadata + entries.countP Entry.isRewritten +
      entries.countP Entry.isCopied = entries.length := by
  induction entries with
  | nil => rfl
  | cons e entries ih =>
    have hone : (if e.isMetadata then 1 else 0) + (if e.isRewritten then 1 else 0) +
        (if e.isCopied then 1 else 0) = 1 := by
      unfold Entry.isRewritten Entry.isCopied
      cases e.isMetadata <;> cases e.newData? <;> simp
    simp only [List.countP_cons, List.length_cons]
    omega

/-- What is written for an entry that a container keeps is kept as well. -/
theorem Entry.stored_strip (h : e.stored = e) : e.strip.stored = e.strip := by
  obtain ⟨hname, hdata, hsecond⟩ := stored_eq_self_iff.1 h
  refine stored_eq_self_iff.2 ⟨hname, fun hdir => ?_, hsecond⟩
  have hcls : e.isClass = false := by
    have hdir : e.isDirectory = true := hdir
    simp [isClass, hdir]
  simpa [strip, newData?, hcls] using hdata hdir

theorem map_stored_stripEntries (h : ∀ e ∈ entries, e.stored = e) :
    (stripEntries entries).map Entry.stored = stripEntries entries := by
  rw [stripEntries, List.map_map]
  refine List.map_congr_left fun e he => ?_
  exact Entry.stored_strip (h e (List.mem_filter.1 he).1)

/-! ## A run over an archive -/

variable {w w' : World} {input output : Path} {report : StrippingReport}

theorem stripArchive_ok_iff (hinput : w.store.content input = .ok (.archive entries))
    (hready : Ready w input output entries) :
    (∃ report w', stripArchive input output w = .ok report w') ↔ ∀ e ∈ entries, e.Strippable := by
  obtain ⟨place, made, hmade, hread⟩ := hready
  rw [stripArchive_of_made hinput hmade hread]
  constructor
  · rintro ⟨report, w', h⟩
    cases hrun : stripAll entries {} with
    | error fault left => simp [hrun] at h
    | ok _ done => exact (stripAll_eq_ok_iff.1 hrun).1
  · intro hall
    rw [stripAll_of_strippable hall]
    exact ⟨_, _, rfl⟩

theorem stripArchive_error_iff (hinput : w.store.content input = .ok (.archive entries))
    (hready : Ready w input output entries) (fault : StripFileFault) :
    (∃ w', stripArchive input output w = .error fault w') ↔
      ∃ before e rest cause, entries = before ++ e :: rest ∧ (∀ x ∈ before, x.Strippable) ∧
        e.StopsStripping cause ∧ fault = .entry cause := by
  obtain ⟨place, made, hmade, hread⟩ := hready
  rw [stripArchive_of_made hinput hmade hread]
  constructor
  · rintro ⟨w', h⟩
    cases hrun : stripAll entries {} with
    | error cause left =>
      rw [hrun] at h
      cases h
      obtain ⟨before, e, rest, hentries, hall, hstops, -⟩ := stripAll_eq_error_iff.1 hrun
      exact ⟨before, e, rest, cause, hentries, hall, hstops, rfl⟩
    | ok _ done => simp [hrun] at h
  · rintro ⟨before, e, rest, cause, rfl, hall, hstops, rfl⟩
    rw [stripAll_of_stops hall hstops]
    exact ⟨_, rfl⟩

theorem stripArchive_eq_ok (hinput : w.store.content input = .ok (.archive entries))
    (hready : Ready w input output entries) (h : stripArchive input output w = .ok report w') :
    w'.store.content output = .ok (.archive ((stripEntries entries).map Entry.stored)) ∧
      report = (StrippingState.after {} entries).report := by
  obtain ⟨place, made, hmade, hread⟩ := hready
  rw [stripArchive_of_made hinput hmade hread] at h
  cases hrun : stripAll entries {} with
  | error fault left => simp [hrun] at h
  | ok _ done =>
    rw [hrun] at h
    cases h
    obtain ⟨-, rfl⟩ := stripAll_eq_ok_iff.1 hrun
    refine ⟨?_, rfl⟩
    simpa [StrippingState.after] using content_filled hmade (stripEntries entries)

/-- A run that succeeds gets past all entries, and writes them as they are kept. -/
theorem stripArchive_keeps (hinput : w.store.content input = .ok (.archive entries))
    (h : stripArchive input output w = .ok report w') :
    (∀ e ∈ entries, e.Strippable) ∧
      w'.store.content output = .ok (.archive ((stripEntries entries).map Entry.stored)) ∧
      report = (StrippingState.after {} entries).report := by
  obtain ⟨entries', hinput', hready⟩ := ready_of_stripArchive h
  cases hinput.symm.trans hinput'
  exact ⟨(stripArchive_ok_iff hinput hready).1 ⟨report, w', h⟩, stripArchive_eq_ok hinput hready h⟩

/-- An archive that is all there is can be stripped, if its entries let it. -/
theorem stripArchive_holding (hinput : Store.IsFileName input) (houtput : Store.IsFileName output)
    (hne : input ≠ output) (hall : ∀ e ∈ entries, e.Strippable) :
    ∃ w', stripArchive input output (holding input entries) =
        .ok (StrippingState.after {} entries).report w' ∧
      w'.store.content output = .ok (.archive ((stripEntries entries).map Entry.stored)) := by
  have hcontent := content_holding hinput entries
  have hready := ready_holding hinput houtput hne entries
  obtain ⟨report, w', hrun⟩ := (stripArchive_ok_iff hcontent hready).2 hall
  obtain ⟨houtput, rfl⟩ := stripArchive_eq_ok hcontent hready hrun
  exact ⟨w', hrun, houtput⟩

/-- A run that fails writes no file, unless it ends at a class file: then the output has been made
and holds what was written for the entries before it. -/
theorem stripArchive_eq_error {failure : StripFileFault}
    (hapart : ∀ place, w.store.place? output = some place → w.store.place? input ≠ some place)
    (h : stripArchive input output w = .error failure w') :
    Store.Evolves (w.store.placesOf []) w.store w'.store ∨
      ∃ before e rest stopped, failure = .entry stopped ∧
        w'.store.content input = .ok (.archive (before ++ e :: rest)) ∧
        (∀ x ∈ before, x.Strippable) ∧ e.StopsStripping stopped ∧
        w'.store.content output = .ok (.archive ((stripEntries before).map Entry.stored)) := by
  obtain hstop | ⟨entries, _, hentries, hrest⟩ := estate_bind_eq_error_iff.1 h
  · exact .inl ((((reads_readArchive input).mapFault _).writes []).evolves_of_error hstop)
  obtain ⟨hinput, rfl⟩ := readArchive_eq_ok_iff.1 (Run.mapFault_eq_ok_iff.1 hentries)
  obtain hstop | ⟨place, made, hmade, -⟩ := estate_bind_eq_error_iff.1 hrest
  · obtain ⟨_, hstop, -⟩ := Run.mapFault_eq_error_iff.1 hstop
    exact .inl (evolves_of_createArchive_error hstop)
  right
  rw [Run.mapFault_eq_ok_iff] at hmade
  have hinput_ne := hapart place (place?_of_createArchive hmade)
  obtain ⟨_, _, hmade', hread⟩ := ready_of_ne hinput hmade fun hsame =>
    hinput_ne (Store.place?_of_resolve hsame)
  cases hmade.symm.trans hmade'
  rw [stripArchive_of_made hinput hmade hread] at h
  rcases strippable_all_or_stops entries with
    hall | ⟨before, e, rest, stopped, rfl, hall, hstops⟩
  · simp [stripAll_of_strippable hall] at h
  · rw [stripAll_of_stops hall hstops] at h
    cases h
    refine ⟨before, e, rest, stopped, rfl, ?_, hall, hstops, ?_⟩
    · refine (evolves_filled hmade _).content hinput fun q hq hmem => ?_
      obtain ⟨_, hpath, hnamed⟩ := hmem
      rw [List.mem_singleton.1 hpath] at hnamed
      exact hapart q hnamed (Store.place?_of_resolve hq)
    · simpa [StrippingState.after] using content_filled hmade (stripEntries before)

/-- Stripping is a filter that keeps the order and changes the data of class files only. It succeeds
just if every class file that is no metadata can be stripped, and otherwise ends with the fault of
the first one that cannot; and it counts every entry once. -/
theorem stripArchive_filters (hinput : w.store.content input = .ok (.archive entries))
    (hready : Ready w input output entries) :
    ((∃ report w', stripArchive input output w = .ok report w') ↔
      ∀ e ∈ entries, e.Strippable) ∧
    (∀ fault, (∃ w', stripArchive input output w = .error fault w') ↔
      ∃ before e rest cause, entries = before ++ e :: rest ∧ (∀ x ∈ before, x.Strippable) ∧
        e.StopsStripping cause ∧ fault = .entry cause) ∧
    ∀ report w', stripArchive input output w = .ok report w' →
      w'.store.content output = .ok (.archive ((stripEntries entries).map Entry.stored)) ∧
      ((∀ e ∈ entries, e.stored = e) →
        (stripEntries entries).map Entry.stored = stripEntries entries) ∧
      report.metadataDropped = entries.countP Entry.isMetadata ∧
      report.classesRewritten = entries.countP Entry.isRewritten ∧
      report.metadataDropped + report.classesRewritten + report.entriesCopied =
        entries.length := by
  refine ⟨stripArchive_ok_iff hinput hready, stripArchive_error_iff hinput hready,
    fun report w' h => ?_⟩
  obtain ⟨hcontent, rfl⟩ := stripArchive_eq_ok hinput hready h
  refine ⟨hcontent, map_stored_stripEntries, by simp [StrippingState.after],
    by simp [StrippingState.after], ?_⟩
  simpa [StrippingState.after] using countP_strip entries

/-! ### Metadata, a text, a class and one with a synthetic field -/

/-- The class `f` with a synthetic field. -/
def tagged : ClassFile :=
  { bareClass "f" with fields := [⟨⟨0x1002⟩, 1, 1, []⟩] }

def mixedEntries : List Entry :=
  [.file "META-INF/MANIFEST.MF" [77] heirTime, .file "lib/f.txt" [102] heirTime,
    .file "f.class" tagged.encode heirTime, bareFile "g.class" "g"]

theorem stripBytes_tagged : stripBytes? tagged.encode = .ok (some tagged.stripped.encode) := rfl

theorem stripBytes_bareClass : stripBytes? (bareClass "g").encode = .ok none := rfl

theorem strippable_mixedEntries : ∀ e ∈ mixedEntries, e.Strippable := by
  refine List.forall_mem_cons.2 ⟨fun hmeta => absurd hmeta (by decide), ?_⟩
  refine List.forall_mem_cons.2 ⟨fun _ hcls => absurd hcls (by decide), ?_⟩
  refine List.forall_mem_cons.2 ⟨fun _ _ => ⟨_, stripBytes_tagged⟩, ?_⟩
  exact List.forall_mem_singleton.2 fun _ _ => ⟨_, stripBytes_bareClass⟩

theorem stripEntries_mixedEntries : stripEntries mixedEntries =
    [.file "lib/f.txt" [102] heirTime, .file "f.class" tagged.stripped.encode heirTime,
      bareFile "g.class" "g"] := rfl

theorem stripArchive_mixedEntries :
    (holding "in.jar" mixedEntries).store.content "in.jar" = .ok (.archive mixedEntries) ∧
      Ready (holding "in.jar" mixedEntries) "in.jar" "out.jar" mixedEntries ∧
      ∃ report w', stripArchive "in.jar" "out.jar" (holding "in.jar" mixedEntries) =
          .ok report w' ∧
        w'.store.content "out.jar" = .ok (.archive [.file "lib/f.txt" [102] heirTime,
          .file "f.class" tagged.stripped.encode heirTime, bareFile "g.class" "g"]) ∧
        report.metadataDropped = 1 ∧ report.classesRewritten = 1 ∧ report.entriesCopied = 2 := by
  have hready : Ready (holding "in.jar" mixedEntries) "in.jar" "out.jar" mixedEntries :=
    ready_holding isFileName_input isFileName_output (by decide) mixedEntries
  have hinput := content_holding isFileName_input mixedEntries
  obtain ⟨hok, -, houtput⟩ := stripArchive_filters hinput hready
  obtain ⟨report, w', hrun⟩ := hok.2 strippable_mixedEntries
  obtain ⟨hcontent, hstored, hmeta, hrewritten, hcount⟩ := houtput report w' hrun
  rw [hstored (by decide), stripEntries_mixedEntries] at hcontent
  have hmeta : report.metadataDropped = 1 := hmeta
  have hrewritten : report.classesRewritten = 1 := hrewritten
  have hcount : _ = 4 := hcount
  exact ⟨hinput, hready, report, w', hrun, hcontent, hmeta, hrewritten, by omega⟩

end JarRefit.Archive
