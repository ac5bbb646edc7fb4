import JarRefit.Proofs.Archive.File

/-!
# Stripping an archive entry by entry

Each entry is stripped by itself: metadata is dropped, and every other entry keeps its name and, if
it is no class file, its data.

## Main definitions

* `Strips`: what stripping writes for an entry.
* `Stripped`: what it makes of a class file's entry.
-/
namespace JarRefit.Archive

open ClassFile Files

/-- What stripping writes for an entry. -/
inductive Strips (e : Entry) : List Entry → Prop where
  | metadata (hmeta : e.isMetadata = true) : Strips e []
  | copied (hmeta : e.isMetadata = false) (hcls : e.isClass = false) : Strips e [e]
  | cls {data? : Option (List UInt8)} (hmeta : e.isMetadata = false) (hcls : e.isClass = true)
      (hstrip : stripBytes? e.data = .ok data?) : Strips e [{ e with data := data?.getD e.data }]

/-- The second entry is the first one with its class file stripped. -/
def Stripped (e e' : Entry) : Prop :=
  ∃ data?, stripBytes? e.data = .ok data? ∧ e' = { e with data := data?.getD e.data }

variable {e : Entry} {entries : List Entry} {s s' : StrippingState}

/-! ## Entries -/

theorem stripEntry_eq_ok (h : stripEntry e s = .ok () s') :
    ∃ out, Strips e out ∧ s'.written = out.reverse ++ s.written := by
  unfold stripEntry at h
  dsimp only at h
  split at h
  · next hmeta =>
    cases h
    exact ⟨[], .metadata hmeta, rfl⟩
  · next hmeta =>
    rw [Bool.not_eq_true] at hmeta
    split at h
    · next hcls =>
      cases hstrip : stripBytes? e.data with
      | error fault => simp [hstrip] at h
      | ok data? =>
        cases data? <;>
          simp only [hstrip, EStateM.Result.ok.injEq, true_and] at h <;>
          exact ⟨_, .cls hmeta hcls hstrip, by rw [← h]; rfl⟩
    · next hcls =>
      cases h
      exact ⟨[e], .copied hmeta (by simpa using hcls), rfl⟩

/-- A run writes what stripping makes of each entry, in their order. -/
theorem stripAll_eq_ok (h : stripAll entries s = .ok () s') :
    ∃ outs, List.Forall₂ Strips entries outs ∧ s'.written = outs.flatten.reverse ++ s.written := by
  induction entries generalizing s with
  | nil =>
    cases h
    exact ⟨[], .nil, rfl⟩
  | cons e entries ih =>
    obtain ⟨_, middle, he, hrest⟩ := estate_bind_eq_ok_iff.1 h
    obtain ⟨out, hstrips, hmiddle⟩ := stripEntry_eq_ok he
    obtain ⟨outs, hall, hwritten⟩ := ih hrest
    exact ⟨out :: outs, .cons hstrips hall, by simp [hwritten, hmiddle]⟩

/-- The class files that are left are those of the input that are no metadata, stripped. -/
theorem forall₂_stripped {outs : List (List Entry)} (h : List.Forall₂ Strips entries outs) :
    List.Forall₂ Stripped ((entries.filter Entry.isClass).filter fun e => !e.isMetadata)
      (outs.flatten.filter Entry.isClass) := by
  induction h with
  | nil => exact .nil
  | @cons e out entries outs hstrips _ ih =>
    rw [List.flatten_cons, List.filter_append]
    cases hstrips with
    | metadata hmeta =>
      rw [List.filter_cons]
      split <;> simpa [hmeta] using ih
    | copied _ hcls => simpa [hcls] using ih
    | @cls data? hmeta hcls hstrip =>
      have hcls' : Entry.isClass { e with data := data?.getD e.data } = true := hcls
      rw [List.filter_cons_of_pos hcls, List.filter_cons_of_pos (by simp [hmeta]),
        List.filter_cons_of_pos hcls']
      exact .cons ⟨data?, hstrip, rfl⟩ ih

/-! ## A run -/

variable {w w' made : World} {place : Place} {input output : Path} {report : StrippingReport}

/-- Where the output can be made and the input can be read, stripping goes as far as its entries
do. -/
theorem stripArchive_of_made (hinput : w.store.content input = .ok (.archive entries))
    (hmade : createArchive output w = .ok place made)
    (hread : rereadArchive input entries made = .ok () made) :
    stripArchive input output w =
      match stripAll entries {} with
      | .error fault done => .error (.entry fault) (made.filled place done.written.reverse)
      | .ok _ done => .ok done.report
          { made.filled place done.written.reverse with
            reports := .archiveStripped output done.report.classesRewritten
              done.report.metadataDropped :: made.reports } := by
  have hentries : readArchive input w = .ok entries w := readArchive_eq_ok_iff.2 ⟨hinput, rfl⟩
  simp only [stripArchive, bind, EStateM.bind, Run.mapFault, hentries, hmade, estate_get_eq, hread]
  cases stripAll entries {} <;> rfl

theorem stripArchive_of_isFileName (hinput : Store.IsFileName input)
    (houtput : Store.IsFileName output) (hne : input ≠ output)
    (hnode : w.store.node? [input] = some (.file (.archive entries)))
    (hdir : w.store.node? [output] ≠ some .directory) {done : StrippingState}
    (hrun : stripAll entries {} = .ok () done) :
    ∃ w', stripArchive input output w = .ok done.report w' := by
  obtain ⟨made, hmade, hread, -⟩ := made_of_isFileName hinput houtput hne hnode hdir
  rw [stripArchive_of_made (hinput.content hnode) hmade hread, hrun]
  exact ⟨_, rfl⟩

/-- A run that succeeds has read an archive and made the output. -/
theorem ready_of_stripArchive (h : stripArchive input output w = .ok report w') :
    ∃ entries, w.store.content input = .ok (.archive entries) ∧ Ready w input output entries := by
  obtain ⟨entries, _, hentries, hrest⟩ := estate_bind_eq_ok_iff.1 h
  obtain ⟨hinput, rfl⟩ := readArchive_eq_ok_iff.1 (Run.mapFault_eq_ok_iff.1 hentries)
  obtain ⟨place, made, hmade, hrest⟩ := estate_bind_eq_ok_iff.1 hrest
  rw [Run.mapFault_eq_ok_iff] at hmade
  obtain ⟨_, _, hget, hrest⟩ := estate_bind_eq_ok_iff.1 hrest
  cases hget
  cases hread : rereadArchive input entries made with
  | error fault again =>
    simp only [hread] at hrest
    obtain ⟨_, _, -, hthrow⟩ := estate_bind_eq_ok_iff.1 hrest
    cases hthrow
  | ok _ again =>
    obtain rfl := rereadArchive_eq_ok hread
    exact ⟨entries, hinput, place, again, hmade, hread⟩

theorem stripArchive_output (h : stripArchive input output w = .ok report w') :
    ∃ entries outs, w.store.content input = .ok (.archive entries) ∧
      List.Forall₂ Strips entries outs ∧
      w'.store.content output = .ok (.archive (outs.flatten.map Entry.stored)) := by
  obtain ⟨entries, hinput, place, made, hmade, hread⟩ := ready_of_stripArchive h
  rw [stripArchive_of_made hinput hmade hread] at h
  cases hrun : stripAll entries {} with
  | error fault done => simp [hrun] at h
  | ok _ done =>
    rw [hrun] at h
    cases h
    obtain ⟨outs, hall, hwritten⟩ := stripAll_eq_ok hrun
    have hreverse : done.written.reverse = outs.flatten := by simp [hwritten]
    refine ⟨entries, outs, hinput, hall, ?_⟩
    rw [← hreverse]
    exact content_filled hmade done.written.reverse

end JarRefit.Archive
