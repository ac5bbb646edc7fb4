import JarRefit.Proofs.Archive.Filtering
import JarRefit.Proofs.Text.Split

/-!
# What stripping keeps

Stripping keeps the entries in whose names the metadata name stands nowhere. Entries below a
directory of that name are among the others, and so is every entry with a longer name that has the
metadata name in it.

## Main definitions

* `Entry.IsUnderMetadata`: an entry with a segment that is the metadata name.
* `Entry.KeptAs`: what stripping makes of an entry that it keeps.
-/
namespace JarRefit.Archive

open ClassFile Files

variable {e : Entry} {entries : List Entry}

/-! ## Names -/

/-- One of the segments of the entry's name is the metadata name. -/
def Entry.IsUnderMetadata (e : Entry) : Prop :=
  metadataName.toList ∈ Text.splitWhere (· == '/') e.name.toList

instance : DecidablePred Entry.IsUnderMetadata := fun _ => inferInstanceAs (Decidable (_ ∈ _))

namespace Entry

theorem isMetadata_iff : e.isMetadata = true ↔ metadataName.toList <:+: e.name.toList :=
  Text.occursIn_iff

theorem IsUnderMetadata.isMetadata (h : e.IsUnderMetadata) : e.isMetadata = true :=
  isMetadata_iff.2 (Text.infix_of_mem_splitWhere h)

/-- The slash behind the name of a directory brings no segment that counts. -/
theorem isUnderMetadata_stored : e.stored.IsUnderMetadata ↔ e.IsUnderMetadata := by
  have hslash : (e.name ++ "/").toList = e.name.toList ++ '/' :: [] := by simp
  have hne : metadataName.toList ≠ [] := by decide
  simp only [IsUnderMetadata, stored]
  split
  · rw [hslash, Text.splitWhere_append_cons (by decide), List.mem_append]
    simp [hne]
  · rfl

theorem isUnderMetadata_strip : e.strip.IsUnderMetadata ↔ e.IsUnderMetadata :=
  Iff.rfl

/-! ## Entries that are kept -/

/-- The second entry has the name, the kind and the time of the first one, and its data unless it is
a class file, which is stripped. -/
structure KeptAs (e e' : Entry) : Prop where
  name : e'.name = e.name
  isDirectory : e'.isDirectory = e.isDirectory
  time : e'.time = e.time
  cls : e.isClass = true →
    ∃ data?, stripBytes? e.data = .ok data? ∧ e'.data = data?.getD e.data
  other : e.isClass = false → e'.data = e.data

theorem strip_of_ok {data? : Option (List UInt8)} (hcls : e.isClass = true)
    (hstrip : stripBytes? e.data = .ok data?) : e.strip.data = data?.getD e.data := by
  simp [strip, newData?, hcls, hstrip, Except.toOption]

theorem keptAs_strip (hmeta : e.isMetadata = false) (h : e.Strippable) :
    e.stored.KeptAs e.strip.stored where
  name := rfl
  isDirectory := rfl
  time := rfl
  cls hcls := by
    rw [isClass_stored] at hcls
    have hcls' : e.strip.isClass = true := hcls
    obtain ⟨data?, hstrip⟩ := h hmeta hcls
    rw [(stored_of_isClass hcls).2, (stored_of_isClass hcls').2]
    exact ⟨data?, hstrip, strip_of_ok hcls hstrip⟩
  other hcls := by
    rw [isClass_stored] at hcls
    simp [strip, newData?, hcls]

end Entry

/-- What is written for an archive is, entry by entry, what is kept of it. -/
theorem forall₂_keptAs (h : ∀ e ∈ entries, e.Strippable) :
    List.Forall₂ Entry.KeptAs ((entries.filter fun e => !e.isMetadata).map Entry.stored)
      ((stripEntries entries).map Entry.stored) := by
  rw [stripEntries, List.map_map, List.forall₂_map_left_iff, List.forall₂_map_right_iff,
    List.forall₂_same]
  intro e he
  obtain ⟨hmem, hmeta⟩ := List.mem_filter.1 he
  exact Entry.keptAs_strip (by simpa using hmeta) (h e hmem)

/-- What is kept is not under a metadata name. -/
theorem filter_isMetadata (entries : List Entry) :
    (entries.filter fun e => !e.isMetadata) =
      (entries.filter fun e => ¬ e.IsUnderMetadata).filter fun e => !e.isMetadata := by
  rw [List.filter_filter]
  refine List.filter_congr fun e _ => ?_
  by_cases hunder : e.IsUnderMetadata
  · simp [hunder, hunder.isMetadata]
  · simp [hunder]

theorem forall_isMetadata_iff :
    (∀ e ∈ entries.filter fun e => ¬ e.IsUnderMetadata, (!e.isMetadata) = true) ↔
      ∀ e ∈ entries, metadataName.toList <:+: e.name.toList → e.IsUnderMetadata := by
  simp only [← Entry.isMetadata_iff, List.mem_filter, decide_eq_true_eq, Bool.not_eq_true',
    ← Bool.not_eq_true, and_imp]
  exact forall₂_congr fun e _ => not_imp_not

/-- No entry under a metadata name is kept. All others are, if no name has the metadata name in it
but as a segment; those that have it inside of a longer segment are lost. -/
theorem stripArchive_keeps_iff {w w' : World} {input output : Path} {report : StrippingReport}
    (hinput : w.store.content input = .ok (.archive entries))
    (h : stripArchive input output w = .ok report w') :
    ∃ outs, w'.store.content output = .ok (.archive outs) ∧
      List.Forall₂ Entry.KeptAs ((entries.filter fun e => !e.isMetadata).map Entry.stored) outs ∧
      (∀ e ∈ outs, ¬ e.IsUnderMetadata) ∧
      (List.Forall₂ Entry.KeptAs
          ((entries.filter fun e => ¬ e.IsUnderMetadata).map Entry.stored) outs ↔
        ∀ e ∈ entries, metadataName.toList <:+: e.name.toList → e.IsUnderMetadata) := by
  obtain ⟨hall, hcontent, -⟩ := stripArchive_keeps hinput h
  have hkept := forall₂_keptAs hall
  refine ⟨_, hcontent, hkept, ?_, ?_⟩
  · intro e' he'
    obtain ⟨_, hmem, rfl⟩ := List.mem_map.1 he'
    obtain ⟨e, he, rfl⟩ := List.mem_map.1 hmem
    rw [Entry.isUnderMetadata_stored, Entry.isUnderMetadata_strip]
    intro hunder
    simpa [hunder.isMetadata] using (List.mem_filter.1 he).2
  · rw [filter_isMetadata] at hkept
    rw [← forall_isMetadata_iff]
    constructor
    · -- As many entries are kept as there are to keep, so none of them is left out.
      intro hclaim
      have hlength := hkept.length_eq.trans hclaim.length_eq.symm
      rwa [List.length_map, List.length_map, List.length_filter_eq_length_iff] at hlength
    · intro hnames
      rwa [List.filter_eq_self.2 hnames] at hkept

/-! ### A name with the metadata name in it -/

/-- Metadata, an entry that only looks like it, and a text. -/
def lookalikeEntries : List Entry :=
  [.file "META-INF/MANIFEST.MF" [77] heirTime, .file "lib/META-INFO.txt" [102] heirTime,
    .file "lib/f.txt" [102] heirTime]

theorem strippable_lookalikeEntries : ∀ e ∈ lookalikeEntries, e.Strippable := by
  intro e he _ hcls
  have hnone : ∀ e ∈ lookalikeEntries, e.isClass = false := by decide
  simp [hnone e he] at hcls

theorem stripArchive_keeps_lookalikeEntries :
    (holding "in.jar" lookalikeEntries).store.content "in.jar" = .ok (.archive lookalikeEntries) ∧
      ∃ report w' outs,
        stripArchive "in.jar" "out.jar" (holding "in.jar" lookalikeEntries) = .ok report w' ∧
        w'.store.content "out.jar" = .ok (.archive outs) ∧ (∀ e ∈ outs, ¬ e.IsUnderMetadata) ∧
        ¬ List.Forall₂ Entry.KeptAs
          ((lookalikeEntries.filter fun e => ¬ e.IsUnderMetadata).map Entry.stored) outs := by
  have hinput := content_holding isFileName_input lookalikeEntries
  obtain ⟨w', hrun, -⟩ := stripArchive_holding isFileName_input isFileName_output (by decide)
    strippable_lookalikeEntries
  obtain ⟨outs, hcontent, -, hnone, hkept⟩ := stripArchive_keeps_iff hinput hrun
  refine ⟨hinput, _, w', outs, hrun, hcontent, hnone, fun hall => ?_⟩
  have hnames : ¬ ∀ e ∈ lookalikeEntries,
      metadataName.toList <:+: e.name.toList → e.IsUnderMetadata := by
    decide
  exact hnames (hkept.1 hall)

/-- The entry `lib/META-INFO.txt` is not under a metadata name, and it is lost. -/
theorem not_kept_lookalikeEntries :
    .file "lib/META-INFO.txt" [102] heirTime ∈ lookalikeEntries ∧
      ¬ (Entry.file "lib/META-INFO.txt" [102] heirTime).IsUnderMetadata ∧
      ∃ report w',
        stripArchive "in.jar" "out.jar" (holding "in.jar" lookalikeEntries) = .ok report w' ∧
        w'.store.content "out.jar" = .ok (.archive [.file "lib/f.txt" [102] heirTime]) := by
  obtain ⟨w', hrun, hcontent⟩ := stripArchive_holding isFileName_input isFileName_output
    (by decide) strippable_lookalikeEntries
  exact ⟨by decide, by decide, _, w', hrun, hcontent⟩

end JarRefit.Archive
