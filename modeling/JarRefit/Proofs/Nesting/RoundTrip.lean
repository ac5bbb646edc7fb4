import Mathlib.Data.List.Basic
import Mathlib.Data.List.Forall2
import JarRefit.Proofs.Nesting.Sheet

/-!
# Sheets that are read and written

A sheet that was read from a value is written as that value, without the optional members of its
records and entries that are null, and with the members of the objects below its classes in another
order. A well-formed sheet that is written is read back as it is.

## Main definitions

* `prunedSheet`: the value of a sheet without optional members that are null.
* `ClassesAlike`: values with the same classes in the same order and with equal records but for the
  order of members.
-/
namespace JarRefit.Nesting

open Json

variable {name : String} {v : Value} {ms : Members}

/-! ## Pruning -/

/-- The names of the members that an entry need not have. -/
def optionalNames : List String :=
  [outerClassName, innerNameName, accessName]

/-- Members without those that have one of some names and are null. -/
def dropNulls (names : List String) (ms : Members) : Members :=
  ms.filter fun m =>
    match m.2 with
    | .null => m.1 ∉ names
    | _ => true

/-- An entry without optional members that are null. -/
def prunedEntry : Value → Value
  | .object ms => .object (dropNulls optionalNames ms)
  | v => v

/-- The list of entries, each of them pruned. -/
def prunedEntries : Value → Value
  | .array vs => .array (vs.map prunedEntry)
  | v => v

/-- The members of a record without a list of entries that is null, and with its entries pruned. -/
def prunedMembers (ms : Members) : Members :=
  (dropNulls [entriesName] ms).map fun m =>
    (m.1, if m.1 = entriesName then prunedEntries m.2 else m.2)

def prunedRecord : Value → Value
  | .object ms => .object (prunedMembers ms)
  | v => v

def prunedSheet : Value → Value
  | .object ms => .object (ms.map fun m => (m.1, prunedRecord m.2))
  | v => v

/-- Whether two objects have the same names in the same order, and equal values under each but for
the order of members. -/
def ClassesAlike (v w : Value) : Prop :=
  ∃ ms ns, v = .object ms ∧ w = .object ns ∧
    List.Forall₂ (fun m n => m.1 = n.1 ∧ m.2.Alike n.2) ms ns

theorem dropNulls_append (names : List String) (ms ns : Members) :
    dropNulls names (ms ++ ns) = dropNulls names ms ++ dropNulls names ns :=
  List.filter_append _ _

theorem dropNulls_null {names : List String} (h : name ∈ names) :
    dropNulls names [(name, .null)] = [] := by
  simp [dropNulls, h]

theorem dropNulls_of_notMem {names : List String} (h : name ∉ names) :
    dropNulls names [(name, v)] = [(name, v)] := by
  cases v <;> simp [dropNulls, h]

theorem dropNulls_of_ne {names : List String} (h : v ≠ .null) :
    dropNulls names [(name, v)] = [(name, v)] := by
  cases v <;> simp_all [dropNulls]

theorem names_dropNulls {names : List String} (h : name ∉ ms.map Prod.fst) :
    name ∉ (dropNulls names ms).map Prod.fst :=
  fun hname => h (List.map_subset _ List.filter_sublist.subset hname)

/-! ## Entries -/

namespace EntryDraft

variable {d d' : EntryDraft}

/-- The members that have been read so far, as they are written. -/
def members (d : EntryDraft) : Members :=
  textMember innerClassName d.innerClass ++ textMember outerClassName d.outerClass.join ++
    textMember innerNameName d.innerName.join ++ textMember accessName d.access.join ++ d.extra

/-- An optional member is read as a text, or it is null and is not written. -/
theorem add_optional {done : Members} {seen x : Option (Option String)} (before after : Members)
    (hdone : MembersAlike (dropNulls optionalNames done) d.members)
    (hfresh : name ∉ done.map Prod.fst) (hname : name ∈ optionalNames)
    (hread : readOnce name seen (Reading.optional Reading.text) v.reading = .ok x)
    (hd : d.members = before ++ textMember name seen.join ++ after)
    (hd' : d'.members = before ++ textMember name x.join ++ after) :
    MembersAlike (dropNulls optionalNames (done ++ [(name, v)])) d'.members := by
  simp only [readOnce_eq_ok_iff, Reading.optional_eq_ok_iff, Reading.text_eq_ok_iff] at hread
  obtain ⟨rfl, _, ⟨rfl, rfl⟩ | ⟨hv, t, rfl, rfl⟩, rfl⟩ := hread
  · rw [dropNulls_append, dropNulls_null hname, List.append_nil, hd']
    rwa [hd] at hdone
  · rw [dropNulls_append, dropNulls_of_ne hv, hd']
    refine hdone.add (names_dropNulls hfresh) (.string t) ?_
    rw [hd]
    simp [textMember]

theorem step_alike {done : Members} (hdone : MembersAlike (dropNulls optionalNames done) d.members)
    (hfresh : name ∉ done.map Prod.fst) (hv : v.NamesOnce) (h : d.step name v.reading = .ok d') :
    MembersAlike (dropNulls optionalNames (done ++ [(name, v)])) d'.members := by
  unfold step at h
  split at h
  · next hname =>
    simp only [except_bind_eq_ok_iff, except_pure_eq_ok_iff, readOnce_eq_ok_iff,
      Reading.text_eq_ok_iff] at h
    obtain ⟨_, ⟨hseen, t, rfl, rfl⟩, rfl⟩ := h
    rw [dropNulls_append, dropNulls_of_ne (by simp)]
    refine hdone.add (names_dropNulls hfresh) (.string t) ?_
    simp [members, textMember, hseen, hname]
  -- The optional members are read alike; each stands in a place of its own among the others.
  split at h
  · next hname =>
    obtain ⟨x, hread, hd'⟩ := except_bind_eq_ok_iff.1 h
    cases hd'
    subst hname
    exact add_optional (textMember innerClassName d.innerClass)
      (textMember innerNameName d.innerName.join ++ textMember accessName d.access.join ++ d.extra)
      hdone hfresh (by simp [optionalNames]) hread (by simp [members]) (by simp [members])
  split at h
  · next hname =>
    obtain ⟨x, hread, hd'⟩ := except_bind_eq_ok_iff.1 h
    cases hd'
    subst hname
    exact add_optional
      (textMember innerClassName d.innerClass ++ textMember outerClassName d.outerClass.join)
      (textMember accessName d.access.join ++ d.extra)
      hdone hfresh (by simp [optionalNames]) hread (by simp [members]) (by simp [members])
  split at h
  · next hname =>
    obtain ⟨x, hread, hd'⟩ := except_bind_eq_ok_iff.1 h
    cases hd'
    subst hname
    exact add_optional _ d.extra hdone hfresh (by simp [optionalNames]) hread rfl rfl
  · next hinner houter hinnerName haccess =>
    obtain ⟨w, hw, hd'⟩ := except_bind_eq_ok_iff.1 h
    cases hd'
    have hunknown : name ∉ optionalNames := by simp [optionalNames, houter, hinnerName, haccess]
    have hextra : name ∉ d.extra.map Prod.fst := fun hname =>
      names_dropNulls hfresh (hdone.mem_names_iff.2 (by simp [members, hname]))
    rw [dropNulls_append, dropNulls_of_notMem hunknown]
    refine hdone.add (names_dropNulls hfresh) (hv.alike hw) ?_
    exact ((Value.insertMember_perm hextra).append_left _).trans List.perm_middle

end EntryDraft

/-- An entry is written as it was read, without optional members that are null. -/
theorem Entry.alike_of_ofReading {e : Entry} (hv : v.NamesOnce)
    (h : Entry.ofReading v.reading = .ok e) : (prunedEntry v).Alike e.toValue := by
  obtain ⟨d, hwalk, he⟩ := except_bind_eq_ok_iff.1 h
  obtain ⟨ms, rfl, hd⟩ := Reading.walk_eq_ok_iff.1 hwalk
  cases hv with | object hnames hvalues =>
  have halike : MembersAlike (dropNulls optionalNames ms) d.members := by
    refine foldlM_readings
      (fun done (d : EntryDraft) => MembersAlike (dropNulls optionalNames done) d.members)
      hnames ?_ (fun done name v d d' hmem hfresh hdone hstep => ?_) hd
    · exact .nil
    · exact EntryDraft.step_alike hdone hfresh (hvalues _ hmem) hstep
  cases hinner : d.innerClass with
  | none => simp [hinner] at he
  | some innerClass =>
    rw [hinner] at he
    cases he
    have hwritten : Value.object d.members = Entry.toValue
        ⟨innerClass, d.outerClass.join, d.innerName.join, d.access.join, d.extra⟩ := by
      simp [Entry.toValue, EntryDraft.members, hinner, textMember]
    rw [← hwritten]
    exact .object halike.names halike.values

/-! ## Records -/

theorem prunedMembers_append (ms ns : Members) :
    prunedMembers (ms ++ ns) = prunedMembers ms ++ prunedMembers ns := by
  rw [prunedMembers, dropNulls_append, List.map_append]
  rfl

theorem prunedMembers_of_ne (h : name ≠ entriesName) :
    prunedMembers [(name, v)] = [(name, v)] := by
  rw [prunedMembers, dropNulls_of_notMem (by simpa using h)]
  simp [h]

theorem names_prunedMembers (h : name ∉ ms.map Prod.fst) :
    name ∉ (prunedMembers ms).map Prod.fst := by
  rw [prunedMembers, List.map_map]
  exact names_dropNulls h

namespace RecordDraft

variable {d d' : RecordDraft}

/-- The members that have been read so far, as they are written. -/
def members (d : RecordDraft) : Members :=
  entriesMember d.entries.join ++ d.extra

theorem step_alike {done : Members} (hdone : MembersAlike (prunedMembers done) d.members)
    (hfresh : name ∉ done.map Prod.fst) (hv : v.NamesOnce) (h : d.step name v.reading = .ok d') :
    MembersAlike (prunedMembers (done ++ [(name, v)])) d'.members := by
  rw [prunedMembers_append]
  have hfresh' := names_prunedMembers hfresh
  unfold step at h
  split at h
  · next hname =>
    subst hname
    obtain ⟨x, hread, hd'⟩ := except_bind_eq_ok_iff.1 h
    cases hd'
    simp only [readOnce_eq_ok_iff, Reading.optional_eq_ok_iff, Reading.items_eq_ok_iff] at hread
    obtain ⟨hseen, _, ⟨rfl, rfl⟩ | ⟨-, es, ⟨vs, rfl, hes⟩, rfl⟩, rfl⟩ := hread
    · have hpruned : prunedMembers [(entriesName, .null)] = [] := rfl
      rw [hpruned, List.append_nil]
      simpa [members, hseen] using hdone
    · have hpruned : prunedMembers [(entriesName, .array vs)] =
          [(entriesName, .array (vs.map prunedEntry))] := rfl
      cases hv with | array hvs =>
      have halike : List.Forall₂ Value.Alike (vs.map prunedEntry) (es.map Entry.toValue) := by
        rw [List.forall₂_map_left_iff, List.forall₂_map_right_iff]
        exact ((List.forall₂_and_left _ _).2 ⟨hvs, hes⟩).imp fun _ _ ⟨hv, he⟩ =>
          Entry.alike_of_ofReading hv he
      rw [hpruned]
      refine hdone.add hfresh' (.of_forall₂ halike) ?_
      simp [members, hseen, entriesMember]
  · next hname =>
    obtain ⟨w, hw, hd'⟩ := except_bind_eq_ok_iff.1 h
    cases hd'
    have hextra : name ∉ d.extra.map Prod.fst := fun hname =>
      hfresh' (hdone.mem_names_iff.2 (by simp [members, hname]))
    rw [prunedMembers_of_ne hname]
    refine hdone.add hfresh' (hv.alike hw) ?_
    exact ((Value.insertMember_perm hextra).append_left _).trans List.perm_middle

end RecordDraft

/-- A record is written as it was read, without a list of entries that is null. -/
theorem ClassRecord.alike_of_ofReading {r : ClassRecord} (hv : v.NamesOnce)
    (h : ClassRecord.ofReading v.reading = .ok r) : (prunedRecord v).Alike r.toValue := by
  obtain ⟨d, hwalk, hr⟩ := except_bind_eq_ok_iff.1 h
  cases hr
  obtain ⟨ms, rfl, hd⟩ := Reading.walk_eq_ok_iff.1 hwalk
  cases hv with | object hnames hvalues =>
  have halike : MembersAlike (prunedMembers ms) d.members := by
    refine foldlM_readings
      (fun done (d : RecordDraft) => MembersAlike (prunedMembers done) d.members)
      hnames ?_ (fun done name v d d' hmem hfresh hdone hstep => ?_) hd
    · exact .nil
    · exact RecordDraft.step_alike hdone hfresh (hvalues _ hmem) hstep
  exact .object halike.names halike.values

/-! ## Sheets -/

namespace Sheet

/-- A sheet is written as it was read, with its classes in their order and without optional members
that are null. -/
theorem classesAlike_of_ofReading {s : Sheet} (hv : v.NamesOnce)
    (h : Sheet.ofReading v.reading = .ok s) : ClassesAlike (prunedSheet v) s.toValue := by
  obtain ⟨ms, rfl, hs⟩ := Reading.walk_eq_ok_iff.1 h
  cases hv with | object hnames hvalues =>
  have halike : List.Forall₂ (fun m c => m.1 = c.1 ∧ (prunedRecord m.2).Alike c.2.toValue)
      ms s.classes := by
    refine foldlM_readings (fun done (s : Sheet) => List.Forall₂
      (fun m c => m.1 = c.1 ∧ (prunedRecord m.2).Alike (ClassRecord.toValue c.2)) done s.classes)
      hnames ?_ (fun done name v s s' hmem hfresh hdone hstep => ?_) hs
    · exact .nil
    · obtain ⟨r, hr, hs'⟩ := except_bind_eq_ok_iff.1 hstep
      cases hs'
      have hsame : List.Forall₂ (· = ·) (done.map Prod.fst) (s.classes.map Prod.fst) := by
        rw [List.forall₂_map_left_iff, List.forall₂_map_right_iff]
        exact hdone.imp fun _ _ => And.left
      rw [List.forall₂_eq_eq_eq] at hsame
      rw [insert_of_fresh (hsame ▸ hfresh)]
      have hrecord := ClassRecord.alike_of_ofReading (hvalues _ hmem) hr
      exact List.rel_append hdone (.cons ⟨rfl, hrecord⟩ .nil)
  refine ⟨_, _, rfl, rfl, ?_⟩
  rwa [List.forall₂_map_left_iff, List.forall₂_map_right_iff]

/-- A sheet keeps the document it was read from: it is written as that document, with its classes in
their order and without the optional members that are null. What is written of a sheet is read back
as the same sheet. -/
theorem toValue_keeps :
    (∀ (v : Value) (s : Sheet), v.NamesOnce → Sheet.ofReading v.reading = .ok s →
        ClassesAlike (prunedSheet v) s.toValue) ∧
      ∀ s : Sheet, s.WellFormed → Sheet.ofReading s.toValue.reading = .ok s :=
  ⟨fun _ _ => classesAlike_of_ofReading, fun _ => ofReading_toValue⟩

/-- A document with two classes that are not sorted, with optional members that are null, and with
members that are kept. -/
theorem toValue_keeps_two_classes :
    let v : Value := .object [("b", .object [("z", .boolean true),
        ("innerClasses", .array [.object [("start", .number (.integer 3)), ("access", .null),
          ("inner_class", .string "b$1"), ("outer_class", .string "b")]]),
        ("enclosingMethod", .object [("owner", .string "x"), ("name", .string "y")])]),
      ("a", .object [("innerClasses", .null)])]
    let s : Sheet := ⟨[("b", ⟨some [⟨"b$1", some "b", none, none,
          [("start", .number (.integer 3))]⟩],
        [("enclosingMethod", .object [("name", .string "y"), ("owner", .string "x")]),
          ("z", .boolean true)]⟩), ("a", ⟨none, []⟩)]⟩
    v.NamesOnce ∧ Sheet.ofReading v.reading = .ok s ∧ ClassesAlike (prunedSheet v) s.toValue ∧
      s.WellFormed ∧ Sheet.ofReading s.toValue.reading = .ok s := by
  intro v s
  have hv : v.NamesOnce := by
    simp [v, Value.NamesOnce]
  have hread : Sheet.ofReading v.reading = .ok s := by
    rfl
  have hs : s.WellFormed := wellFormed_of_ofReading hread
  exact ⟨hv, hread, toValue_keeps.1 v s hv hread, hs, toValue_keeps.2 s hs⟩

end Sheet

end JarRefit.Nesting
