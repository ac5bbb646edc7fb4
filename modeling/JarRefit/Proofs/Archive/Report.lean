import JarRefit.Proofs.Archive.Metadata
import JarRefit.Proofs.ClassFile.ClearedMembers

/-!
# What the report of stripping counts

The report counts the class files that are written anew, and these are the ones in which the flag of
some member was cleared. The members themselves it does not count: that figure is always 0, and so
it is right only where nothing was cleared.

## Main definitions

* `clearedCounts`: how many members lost their flag, for each class file that is no metadata.
-/
namespace JarRefit.Archive

open ClassFile Files

variable {e : Entry} {entries : List Entry}

/-- How many fields and methods of the class file in an entry are synthetic there, and no longer in
another entry. -/
def Entry.clearedMembers (e e' : Entry) : Nat :=
  match decode e.data with
  | .ok c => c.clearedMembers e.data e'.data
  | .error _ => 0

/-- How many members lost their flag in each class file that is no metadata; the output has an entry
for each one of the input that is no metadata. -/
def clearedCounts (entries outs : List Entry) : List Nat :=
  (((entries.filter fun e => !e.isMetadata).zip outs).filter (·.1.isClass)).map fun (e, e') =>
    e.clearedMembers e'

/-! ## Entries -/

theorem Entry.clearedMembers_pos_iff (hmeta : e.isMetadata = false) (hcls : e.isClass = true)
    (h : e.Strippable) : 0 < e.clearedMembers e.strip.stored ↔ e.isRewritten = true := by
  obtain ⟨data?, hstrip⟩ := h hmeta hcls
  obtain ⟨c, hread, -⟩ := except_bind_eq_ok_iff.1 hstrip
  have hcls' : e.strip.isClass = true := hcls
  have hdata : e.strip.stored.data = data?.getD e.data :=
    (stored_of_isClass hcls').2.trans (strip_of_ok hcls hstrip)
  rw [clearedMembers, hread, hdata]
  have hpos := ClassFile.clearedMembers_pos_iff hread hstrip
  simpa [isRewritten, newData?, hmeta, hcls, hstrip, Except.toOption] using hpos

/-- An entry that is written anew is a class file, and no metadata, in which a flag was cleared. -/
theorem Entry.isRewritten_iff (h : e.Strippable) : e.isRewritten = true ↔
    (0 < e.clearedMembers e.strip.stored ∧ e.isClass = true) ∧ e.isMetadata = false := by
  constructor
  · intro hrewritten
    have hmeta : e.isMetadata = false := by grind [isRewritten]
    have hcls : e.isClass = true := by grind [isRewritten, newData?]
    exact ⟨⟨(clearedMembers_pos_iff hmeta hcls h).2 hrewritten, hcls⟩, hmeta⟩
  · rintro ⟨⟨hpos, hcls⟩, hmeta⟩
    exact (clearedMembers_pos_iff hmeta hcls h).1 hpos

/-! ## A run -/

theorem clearedCounts_stripEntries (entries : List Entry) :
    clearedCounts entries ((stripEntries entries).map Entry.stored) =
      ((entries.filter fun e => !e.isMetadata).filter Entry.isClass).map fun e =>
        e.clearedMembers e.strip.stored := by
  rw [clearedCounts, stripEntries, List.map_map, ← List.map_prod_left_eq_zip, List.filter_map,
    List.map_map]
  rfl

/-- The class files in which the flag of a member was cleared are those that were written anew. -/
theorem countP_clearedCounts (h : ∀ e ∈ entries, e.Strippable) :
    (clearedCounts entries ((stripEntries entries).map Entry.stored)).countP (0 < ·) =
      entries.countP Entry.isRewritten := by
  rw [clearedCounts_stripEntries, List.countP_map, List.countP_filter, List.countP_filter]
  refine List.countP_congr fun e he => ?_
  simpa using (Entry.isRewritten_iff (h e he)).symm

theorem sum_eq_zero_iff_countP (ns : List Nat) : ns.sum = 0 ↔ ns.countP (0 < ·) = 0 := by
  simp [List.countP_eq_zero, List.sum_eq_zero_iff_forall_eq_nat]

/-- The report has the number of class files in which the flag of a member was cleared. As the
number of these members it has 0, which is right just if there are none. -/
theorem stripArchive_counts {w w' : World} {input output : Path} {report : StrippingReport}
    (hinput : w.store.content input = .ok (.archive entries))
    (h : stripArchive input output w = .ok report w') :
    ∃ outs, w'.store.content output = .ok (.archive outs) ∧
      List.Forall₂ Entry.KeptAs ((entries.filter fun e => !e.isMetadata).map Entry.stored) outs ∧
      report.classesRewritten = (clearedCounts entries outs).countP (0 < ·) ∧
      report.membersCleared = 0 ∧
      (report.membersCleared = (clearedCounts entries outs).sum ↔ report.classesRewritten = 0) := by
  obtain ⟨hall, hcontent, rfl⟩ := stripArchive_keeps hinput h
  have hrewritten : (StrippingState.after {} entries).report.classesRewritten =
      (clearedCounts entries ((stripEntries entries).map Entry.stored)).countP (0 < ·) := by
    rw [countP_clearedCounts hall]
    exact Nat.zero_add _
  have hcleared : (StrippingState.after {} entries).report.membersCleared = 0 := rfl
  refine ⟨_, hcontent, forall₂_keptAs hall, hrewritten, hcleared, ?_⟩
  rw [hcleared, hrewritten, eq_comm]
  exact sum_eq_zero_iff_countP _

/-! ### A class file with a synthetic field -/

/-- One field of `f.class` loses its flag, and `g.class` has none. -/
theorem clearedCounts_mixedEntries :
    clearedCounts mixedEntries ((stripEntries mixedEntries).map Entry.stored) = [1, 0] := by
  decide

theorem stripArchive_counts_mixedEntries :
    (holding "in.jar" mixedEntries).store.content "in.jar" = .ok (.archive mixedEntries) ∧
      ∃ report w', stripArchive "in.jar" "out.jar" (holding "in.jar" mixedEntries) =
          .ok report w' ∧
        report.classesRewritten = 1 ∧ report.membersCleared = 0 := by
  have hinput := content_holding isFileName_input mixedEntries
  obtain ⟨w', hrun, hkept⟩ := stripArchive_holding isFileName_input isFileName_output (by decide)
    strippable_mixedEntries
  obtain ⟨outs, hcontent, -, hrewritten, hcleared, -⟩ := stripArchive_counts hinput hrun
  cases hcontent.symm.trans hkept
  rw [clearedCounts_mixedEntries] at hrewritten
  exact ⟨hinput, _, w', hrun, hrewritten, hcleared⟩

/-- A member is cleared, and the report has none. -/
theorem membersCleared_ne_mixedEntries :
    ∃ report w' outs,
      stripArchive "in.jar" "out.jar" (holding "in.jar" mixedEntries) = .ok report w' ∧
        w'.store.content "out.jar" = .ok (.archive outs) ∧
        report.membersCleared = 0 ∧ (clearedCounts mixedEntries outs).sum = 1 := by
  obtain ⟨w', hrun, hcontent⟩ := stripArchive_holding isFileName_input isFileName_output
    (by decide) strippable_mixedEntries
  refine ⟨_, w', _, hrun, hcontent, rfl, ?_⟩
  rw [clearedCounts_mixedEntries]
  rfl

end JarRefit.Archive
