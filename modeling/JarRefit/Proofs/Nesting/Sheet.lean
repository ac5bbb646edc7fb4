import Mathlib.Data.List.Basic
import Mathlib.Data.List.Forall2
import JarRefit.Proofs.Json.Reading
import JarRefit.Proofs.Nesting.Entrywise

/-!
# Well-formed sheets

Every sheet that is read is well-formed, a patch keeps it so, and a well-formed sheet that is
written is read back as it is.

## Main definitions

* `Entry.WellFormed`, `ClassRecord.WellFormed`: the members that are kept beside the known ones are
  sorted, and have other names.
* `Sheet.WellFormed`: classes have names of their own, and well-formed records.
-/
namespace JarRefit.Nesting

open Json

variable {name : String} {v : Value} {ms : Members}

/-- The names of the members of an entry that are known. -/
def entryNames : List String :=
  [innerClassName, outerClassName, innerNameName, accessName]

/-- Whether the members that an entry keeps are sorted and none of them has a known name. -/
structure Entry.WellFormed (e : Entry) : Prop where
  sorted : MembersSorted e.extra
  unknown : ∀ m ∈ e.extra, m.1 ∉ entryNames

/-- Whether the members that a record keeps are sorted and none of them is named like the list of
entries, and the entries are well-formed. -/
structure ClassRecord.WellFormed (r : ClassRecord) : Prop where
  sorted : MembersSorted r.extra
  unknown : ∀ m ∈ r.extra, m.1 ≠ entriesName
  entries : ∀ e ∈ r.entries.getD [], e.WellFormed

/-- Whether there is one well-formed record for a class. -/
structure Sheet.WellFormed (s : Sheet) : Prop where
  names : s.NamesOnce
  records : ∀ c ∈ s.classes, c.2.WellFormed

/-! ## What is read is well-formed -/

theorem readOnce_eq_ok_iff {α : Type} {seen x : Option α} {read : Reading → Except Fault α}
    {r : Reading} : readOnce name seen read r = .ok x ↔
      seen = none ∧ ∃ a, read r = .ok a ∧ some a = x := by
  cases seen with
  | some => simp [readOnce]
  | none => simp [readOnce, except_map_eq_ok_iff]

theorem Sheet.insert_of_fresh {s : Sheet} {cls : String} (h : cls ∉ s.classes.map Prod.fst)
    (r : ClassRecord) : s.insert cls r = ⟨s.classes ++ [(cls, r)]⟩ := by
  have hany : s.classes.any (·.1 = cls) = false := by
    rw [List.any_eq_false]
    intro m hm hname
    exact h (List.mem_map.2 ⟨m, hm, of_decide_eq_true hname⟩)
  rw [insert, hany]
  rfl

/-- A member with an unknown name is kept as an object keeps it. -/
theorem EntryDraft.step_of_unknown {d : EntryDraft} {r : Reading} (h : name ∉ entryNames) :
    d.step name r =
      (fun w => { d with extra := Value.insertMember name w d.extra }) <$> r.value := by
  simp only [entryNames, List.mem_cons, List.not_mem_nil, or_false, not_or] at h
  obtain ⟨hinner, houter, hinnerName, haccess⟩ := h
  simp only [step, hinner, houter, hinnerName, haccess, if_false]
  cases r.value <;> rfl

theorem RecordDraft.step_of_unknown {d : RecordDraft} {r : Reading} (h : name ≠ entriesName) :
    d.step name r =
      (fun w => { d with extra := Value.insertMember name w d.extra }) <$> r.value := by
  simp only [step, h, if_false]
  cases r.value <;> rfl

/-- A step of reading leaves the members that are kept, or adds one with an unknown name. -/
theorem EntryDraft.extra_step {d d' : EntryDraft} {r : Reading} (h : d.step name r = .ok d') :
    d'.extra = d.extra ∨
      name ∉ entryNames ∧ ∃ w, r.value = .ok w ∧ d'.extra = Value.insertMember name w d.extra := by
  unfold step at h
  iterate 4
    split at h
    · obtain ⟨_, -, hd'⟩ := except_bind_eq_ok_iff.1 h
      cases hd'
      exact .inl rfl
  · next hinner houter hinnerName haccess =>
    obtain ⟨w, hw, hd'⟩ := except_bind_eq_ok_iff.1 h
    cases hd'
    exact .inr ⟨by simp [entryNames, hinner, houter, hinnerName, haccess], w, hw, rfl⟩

/-- Sorted members with unknown names stay so when a value of an unknown name is read. -/
theorem kept_insertMember {known : List String} {r : Reading} {w : Value}
    (h : MembersSorted ms ∧ ∀ m ∈ ms, m.1 ∉ known) (hname : name ∉ known) (hw : r.value = .ok w) :
    MembersSorted (Value.insertMember name w ms) ∧
      ∀ m ∈ Value.insertMember name w ms, m.1 ∉ known := by
  refine ⟨Value.membersSorted_insertMember h.1 (Reading.sorted_value r hw), fun m hm => ?_⟩
  rcases Value.mem_insertMember hm with rfl | hm
  · exact hname
  · exact h.2 m hm

theorem Entry.wellFormed_of_ofReading {e : Entry} {r : Reading} (h : Entry.ofReading r = .ok e) :
    e.WellFormed := by
  obtain ⟨d, hwalk, he⟩ := except_bind_eq_ok_iff.1 h
  have hd : MembersSorted d.extra ∧ ∀ m ∈ d.extra, m.1 ∉ entryNames := by
    refine Reading.walk_keeps (fun d : EntryDraft =>
      MembersSorted d.extra ∧ ∀ m ∈ d.extra, m.1 ∉ entryNames) ⟨.nil, by simp⟩
      (fun d name r d' hd hstep => ?_) hwalk
    rcases EntryDraft.extra_step hstep with hextra | ⟨hname, w, hw, hextra⟩
    · rwa [hextra]
    · rw [hextra]
      exact kept_insertMember hd hname hw
  cases hinner : d.innerClass with
  | none => simp [hinner] at he
  | some innerClass =>
    rw [hinner] at he
    cases he
    exact ⟨hd.1, hd.2⟩

theorem items_wellFormed {es : List Entry} {r : Reading}
    (h : Reading.items Entry.ofReading r = .ok es) : ∀ e ∈ es, e.WellFormed := by
  cases r with
  | array rs stop =>
    obtain ⟨es', hes, hstop⟩ := except_bind_eq_ok_iff.1 h
    cases stop with
    | some => cases hstop
    | none =>
      cases hstop
      rw [mapM_eq_ok_iff] at hes
      clear h
      induction hes with
      | nil => simp
      | cons he _ ih => exact List.forall_mem_cons.2 ⟨Entry.wellFormed_of_ofReading he, ih⟩
  | _ => cases h

theorem ClassRecord.wellFormed_of_ofReading {r : ClassRecord} {reading : Reading}
    (h : ClassRecord.ofReading reading = .ok r) : r.WellFormed := by
  obtain ⟨d, hwalk, hr⟩ := except_bind_eq_ok_iff.1 h
  cases hr
  refine Reading.walk_keeps (fun d : RecordDraft =>
    ClassRecord.WellFormed ⟨d.entries.join, d.extra⟩) ⟨.nil, by simp, by simp⟩
    (fun d name r d' hd hstep => ?_) hwalk
  unfold RecordDraft.step at hstep
  split at hstep
  · next hname =>
    obtain ⟨x, hread, hd'⟩ := except_bind_eq_ok_iff.1 hstep
    cases hd'
    obtain ⟨-, y, hy, rfl⟩ := readOnce_eq_ok_iff.1 hread
    refine ⟨hd.sorted, hd.unknown, ?_⟩
    rcases Reading.optional_cases hy with rfl | ⟨es, hes, rfl⟩
    · simp
    · exact items_wellFormed hes
  · next hname =>
    obtain ⟨w, hw, hd'⟩ := except_bind_eq_ok_iff.1 hstep
    cases hd'
    have hextra : MembersSorted d.extra ∧ ∀ m ∈ d.extra, m.1 ∉ [entriesName] :=
      ⟨hd.sorted, by simpa using hd.unknown⟩
    have hkept := kept_insertMember hextra (by simpa using hname) hw
    exact ⟨hkept.1, by simpa using hkept.2, hd.entries⟩

/-- A sheet has one record for a class when one was put into it. -/
theorem Sheet.WellFormed.insert {s : Sheet} {r : ClassRecord} (hs : s.WellFormed)
    (hr : r.WellFormed) (cls : String) : (s.insert cls r).WellFormed := by
  by_cases hcls : cls ∈ s.classes.map Prod.fst
  · have hany : s.classes.any (·.1 = cls) = true := by
      simpa using hcls
    rw [Sheet.insert, if_pos hany]
    refine ⟨by simpa [NamesOnce, Function.comp_def] using hs.names, fun c hc => ?_⟩
    obtain ⟨old, hold, rfl⟩ := List.mem_map.1 hc
    dsimp only
    split
    · exact hr
    · exact hs.records old hold
  · rw [Sheet.insert_of_fresh hcls]
    refine ⟨?_, fun c hc => ?_⟩
    · have hperm : (s.classes ++ [(cls, r)]).Perm ((cls, r) :: s.classes) :=
        List.perm_append_singleton _ _
      exact (hperm.map Prod.fst).nodup_iff.2 (List.nodup_cons.2 ⟨hcls, hs.names⟩)
    · rcases List.mem_append.1 hc with hc | hc
      · exact hs.records c hc
      · cases List.mem_singleton.1 hc
        exact hr

/-- Whatever text a sheet is read from, it is well-formed. -/
theorem Sheet.wellFormed_of_ofReading {s : Sheet} {r : Reading} (h : Sheet.ofReading r = .ok s) :
    s.WellFormed := by
  have hempty : WellFormed {} := ⟨List.nodup_nil, by simp⟩
  refine Reading.walk_keeps WellFormed hempty (fun s cls r s' hs hstep => ?_) h
  obtain ⟨record, hrecord, hs'⟩ := except_bind_eq_ok_iff.1 hstep
  cases hs'
  exact hs.insert (ClassRecord.wellFormed_of_ofReading hrecord) cls

/-! ## What is patched stays well-formed -/

theorem Entry.WellFormed.changedBy {e : Entry} (he : e.WellFormed) (cs : List Access.Change) :
    (e.changedBy cs).WellFormed := by
  have hextra : (e.changedBy cs).extra = e.extra := by
    unfold Entry.changedBy
    split <;> rfl
  exact ⟨hextra ▸ he.sorted, hextra ▸ he.unknown⟩

theorem Sheet.WellFormed.patch {s : Sheet} (hs : s.WellFormed) (lines : List String) :
    (s.patch lines).WellFormed := by
  rw [Sheet.patch_eq]
  refine ⟨hs.names.mapEntries _, fun c hc => ?_⟩
  obtain ⟨⟨cls, r⟩, hold, rfl⟩ := List.mem_map.1 hc
  have hr : r.WellFormed := hs.records _ hold
  refine ⟨hr.sorted, hr.unknown, fun e he => ?_⟩
  cases hentries : r.entries with
  | none => simp [hentries] at he
  | some es =>
    obtain ⟨old, hmem, rfl⟩ : ∃ old ∈ es, old.changedBy (asked lines cls old.innerClass) = e := by
      simpa [hentries] using he
    exact (hr.entries old (by simpa [hentries] using hmem)).changedBy _

/-! ## Reading back what was written -/

/-- The member for entries that may be absent. -/
def entriesMember (entries : Option (List Entry)) : Members :=
  entries.toList.map fun es => (entriesName, .array (es.map Entry.toValue))

theorem join_map_some {α : Type} (x : Option α) : (x.map some).join = x := by
  cases x <;> rfl

theorem Entry.ofReading_toValue {e : Entry} (he : e.WellFormed) :
    Entry.ofReading e.toValue.reading = .ok e := by
  obtain ⟨innerClass, outerClass, innerName, access, extra⟩ := e
  obtain ⟨hsorted, hunknown⟩ := he
  let known := (innerClassName, .string innerClass) :: (textMember outerClassName outerClass ++
    textMember innerNameName innerName ++ textMember accessName access)
  let d : EntryDraft :=
    ⟨some innerClass, outerClass.map some, innerName.map some, access.map some, []⟩
  have hknown : (Value.memberReadings known).foldlM (fun d m => EntryDraft.step d m.1 m.2) {} =
      .ok d := by
    cases outerClass <;> cases innerName <;> cases access <;> rfl
  have hwalk : (Value.object (known ++ extra)).reading.walk "struct InnerClassEntry"
      EntryDraft.step {} = .ok { d with extra } := by
    refine Reading.walk_eq_ok_iff.2 ⟨_, rfl, ?_⟩
    rw [Value.memberReadings_append, List.foldlM_append, hknown]
    refine hsorted.foldlM_memberReadings (fun kept => { d with extra := kept })
      (fun kept m hm => ?_)
    exact EntryDraft.step_of_unknown (hunknown m hm)
  refine except_bind_eq_ok_iff.2 ⟨_, hwalk, ?_⟩
  simp only [d, join_map_some]
  rfl

theorem ClassRecord.ofReading_toValue {r : ClassRecord} (hr : r.WellFormed) :
    ClassRecord.ofReading r.toValue.reading = .ok r := by
  obtain ⟨entries, extra⟩ := r
  obtain ⟨hsorted, hunknown, hentries⟩ := hr
  let d : RecordDraft := ⟨entries.map some, []⟩
  have hknown : (Value.memberReadings (entriesMember entries)).foldlM
      (fun d m => RecordDraft.step d m.1 m.2) {} = .ok d := by
    cases entries with
    | none => rfl
    | some es =>
      have hread : Reading.items Entry.ofReading (Value.array (es.map Entry.toValue)).reading =
          .ok es := by
        refine Reading.items_eq_ok_iff.2 ⟨_, rfl, ?_⟩
        rw [List.forall₂_map_left_iff, List.forall₂_same]
        exact fun e he => Entry.ofReading_toValue (hentries e he)
      have hstep : RecordDraft.step {} entriesName
          (Value.array (es.map Entry.toValue)).reading = .ok ⟨some (some es), []⟩ := by
        have hes := Reading.optional_eq_ok_iff.2 (.inr ⟨by simp, es, hread, rfl⟩)
        rw [RecordDraft.step, if_pos rfl]
        exact except_bind_eq_ok_iff.2 ⟨_, readOnce_eq_ok_iff.2 ⟨rfl, _, hes, rfl⟩, rfl⟩
      exact except_bind_eq_ok_iff.2 ⟨_, hstep, rfl⟩
  have hwalk : (Value.object (entriesMember entries ++ extra)).reading.walk "struct ClassRecord"
      RecordDraft.step {} = .ok { d with extra } := by
    refine Reading.walk_eq_ok_iff.2 ⟨_, rfl, ?_⟩
    rw [Value.memberReadings_append, List.foldlM_append, hknown]
    refine hsorted.foldlM_memberReadings (fun kept => { d with extra := kept })
      (fun kept m hm => ?_)
    exact RecordDraft.step_of_unknown (hunknown m hm)
  refine except_bind_eq_ok_iff.2 ⟨_, hwalk, ?_⟩
  simp only [d, join_map_some]
  rfl

namespace Sheet

theorem ofReading_toValue {s : Sheet} (hs : s.WellFormed) :
    Sheet.ofReading s.toValue.reading = .ok s := by
  -- The classes are those that have been read and those that are left.
  suffices hfold : ∀ rest done : List (String × ClassRecord), ((done ++ rest).map Prod.fst).Nodup →
      (∀ c ∈ rest, c.2.WellFormed) →
      (Value.memberReadings (rest.map fun c => (c.1, c.2.toValue))).foldlM
        (fun s m => return Sheet.insert s m.1 (← ClassRecord.ofReading m.2)) ⟨done⟩ =
          .ok ⟨done ++ rest⟩ from
    Reading.walk_eq_ok_iff.2 ⟨_, rfl, hfold s.classes [] hs.names hs.records⟩
  intro rest
  induction rest with
  | nil =>
    intro done _ _
    rw [List.append_nil]
    rfl
  | cons c rest ih =>
    intro done hnames hrecords
    obtain ⟨cls, r⟩ := c
    rw [List.forall_mem_cons] at hrecords
    rw [List.map_cons, Value.memberReadings, List.foldlM_cons,
      ClassRecord.ofReading_toValue hrecords.1]
    change List.foldlM _ (Sheet.insert ⟨done⟩ cls r) _ = _
    rw [Sheet.insert_of_fresh (notMem_of_nodup_names hnames),
      ih (done ++ [(cls, r)]) (by simpa using hnames) hrecords.2]
    simp

end Sheet

end JarRefit.Nesting
