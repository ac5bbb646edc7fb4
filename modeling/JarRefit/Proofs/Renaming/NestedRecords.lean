import JarRefit.Proofs.ClassFile.Bytes
import JarRefit.Proofs.Renaming.Declarations

/-!
# Renaming the records of nested classes

A record that has a class and a simple name gets the simple name in which the new name of its class
ends; everything else in the payload that lists the records stays.

## Main definitions

* `simpleName?`: the simple name in which the name of a nested class ends.
* `Sheet.RecordRenamed`, `Sheet.NestedRenamed`: what renaming makes of a record, and of an attribute
  when the records of nested classes are renamed.
-/
namespace JarRefit.Renaming

open ClassFile Naming

/-! ## Payloads -/

namespace NestedRecord

variable {records records' : List NestedRecord} {rest rest' info : List UInt8}

theorem decode_exact : Decoder.Exact decode (fun _ => True) encode := by
  intro input r rest
  simp only [decode, Decoder.u16_exact.bind_iff, Decoder.pure_eq_ok_iff, true_and]
  constructor
  · rintro ⟨_, _, rfl, _, _, rfl, _, _, rfl, _, _, rfl, rfl, rfl⟩
    simp [encode]
  · rintro rfl
    exact ⟨_, _, by simp [encode], _, _, rfl, _, _, rfl, _, _, rfl, rfl, rfl⟩

theorem payload?_eq_some_iff : payload? info = some (records, rest) ↔
    records.length ≤ 65535 ∧ info = encodePayload records rest := by
  have hexact := Decoder.counted_exact decode_exact info records rest
  simp only [implies_true, and_true] at hexact
  rw [encodePayload, ← hexact, payload?]
  cases Decoder.counted decode info <;> simp [Except.toOption]

theorem length_encodePayload (records : List NestedRecord) (rest : List UInt8) :
    (encodePayload records rest).length = 2 + records.length * 8 + rest.length := by
  have hrecord : ∀ r : NestedRecord, r.encode.length = 8 := fun _ => rfl
  simp [encodePayload, encodeCounted, encodeU16, List.length_flatMap, hrecord]
  omega

/-- Payloads of as many records tell them apart. -/
theorem encodePayload_inj (hlength : records.length = records'.length)
    (hfits : records.length ≤ 65535)
    (h : encodePayload records rest = encodePayload records' rest') :
    records = records' ∧ rest = rest' := by
  have hread : payload? (encodePayload records rest) = some (records, rest) :=
    payload?_eq_some_iff.2 ⟨hfits, rfl⟩
  have hread' := payload?_eq_some_iff.2 ⟨hlength ▸ hfits, h⟩
  simpa using hread.symm.trans hread'

/-- Whether renaming looks at the record: it has a class and a simple name. -/
def Counts (r : NestedRecord) : Prop :=
  r.inner ≠ 0 ∧ r.name ≠ 0

end NestedRecord

/-! ## Simple names -/

/-- The simple name in which the name of a nested class ends, if that is not empty. -/
def simpleName? (cls : String) : Option String :=
  (Text.cutLast? '$' cls.toList).bind fun (_, simple) =>
    if simple.isEmpty then none else some (String.ofList simple)

namespace Sheet

variable {s : Sheet}

theorem renameNested_eq : s.renameNested = (do
    let r ← Work.item
    if r.inner ≠ 0 ∧ r.name ≠ 0 then
      let oldName ← resolve (s.original.text r.name)
      let cls ← resolve (s.original.className r.inner)
      Work.repoint ((simpleName? (s.mapping.renameClass cls)).bind (unlessSame oldName))
        fun index r => { r with name := index }) := by
  unfold renameNested
  congr! 6 with r hcounts oldName
  funext cls
  unfold Work.repoint simpleName? unlessSame
  cases Text.cutLast? '$' (s.mapping.renameClass cls).toList with
  | none => rfl
  | some parts =>
    obtain ⟨_, simple⟩ := parts
    cases simple with
    | nil => simp
    | cons c simple =>
      have hnonempty : (String.ofList (c :: simple)).isEmpty = false := by simp
      simp only [Option.bind_some, List.isEmpty_cons, Bool.false_eq_true, if_false]
      generalize String.ofList (c :: simple) = new at hnonempty
      by_cases hsame : new = oldName <;> simp [hsame, hnonempty]

theorem bind_unlessSame_getD (new? : Option String) (old : String) :
    (new?.bind (unlessSame old)).getD old = new?.getD old := by
  cases new? <;> simp

/-! ## Records -/

/-- What renaming makes of a record: its simple name, if it counts, is the one in which the new name
of its class ends. -/
structure RecordRenamed (s : Sheet) (new : ConstantPool) (r r' : NestedRecord) : Prop where
  frame : r' = { r with name := r'.name }
  skipped : ¬ r.Counts → r'.name = r.name
  resolved : r.Counts → ∃ old cls, s.original.text r.name = .ok old ∧
    s.original.className r.inner = .ok cls ∧
    new.text r'.name = .ok ((simpleName? (s.mapping.renameClass cls)).getD old)

theorem RecordRenamed.mono {old new : ConstantPool} {r r' : NestedRecord} (hkeeps : old.Keeps new)
    (h : RecordRenamed s old r r') : RecordRenamed s new r r' where
  frame := h.frame
  skipped := h.skipped
  resolved hcounts := by
    obtain ⟨oldName, cls, hname, hcls, hnew⟩ := h.resolved hcounts
    exact ⟨oldName, cls, hname, hcls, hkeeps.text hnew⟩

theorem recordRenamed_of_renameNested {desk desk' : Desk NestedRecord}
    (hsound : desk.interner.Sound) (hkeeps : s.original.Keeps desk.interner.pool)
    (h : s.renameNested desk = .ok () desk') :
    RecordRenamed s desk'.interner.pool desk.item desk'.item := by
  rw [renameNested_eq] at h
  obtain ⟨_, _, hitem, h⟩ := estate_bind_eq_ok_iff.1 h
  cases hitem
  split at h
  · next hcounts =>
    obtain ⟨old, _, hresolve, h⟩ := estate_bind_eq_ok_iff.1 h
    obtain ⟨hname, rfl⟩ := resolve_eq_ok_iff.1 hresolve
    obtain ⟨cls, _, hresolve, h⟩ := estate_bind_eq_ok_iff.1 h
    obtain ⟨hcls, rfl⟩ := resolve_eq_ok_iff.1 hresolve
    obtain ⟨j, hj, htext⟩ := Work.repoint_eq_ok hsound (i := desk.item.name) rfl
      (hkeeps.text hname) h
    rw [bind_unlessSame_getD] at htext
    rw [hj]
    exact ⟨rfl, fun hskipped => absurd hcounts hskipped, fun _ => ⟨old, cls, hname, hcls, htext⟩⟩
  · next hskipped =>
    cases h
    exact ⟨rfl, fun _ => rfl, fun hcounts => absurd hcounts hskipped⟩

/-- What renaming the records of nested classes makes of an attribute. -/
structure NestedRenamed (s : Sheet) (new : ConstantPool) (a a' : Attribute) : Prop where
  name : a'.name = a.name
  records : ∀ records rest, s.original.text a.name = .ok nestedName →
    NestedRecord.payload? a.info = some (records, rest) →
    ∃ records', a'.info = NestedRecord.encodePayload records' rest ∧
      List.Forall₂ (RecordRenamed s new) records records'
  others : (∀ records rest, s.original.text a.name = .ok nestedName →
    NestedRecord.payload? a.info ≠ some (records, rest)) → a' = a

theorem NestedRenamed.mono {old new : ConstantPool} {a a' : Attribute} (hkeeps : old.Keeps new)
    (h : NestedRenamed s old a a') : NestedRenamed s new a a' where
  name := h.name
  others := h.others
  records records rest hname hpayload := by
    obtain ⟨records', hinfo, hrecords⟩ := h.records records rest hname hpayload
    exact ⟨records', hinfo, hrecords.imp fun _ _ => .mono hkeeps⟩

theorem nestedRenamed_of_renameNestedAttribute {desk desk' : Desk Attribute}
    (hsound : desk.interner.Sound) (hkeeps : s.original.Keeps desk.interner.pool)
    (h : s.renameNestedAttribute desk = .ok () desk') :
    NestedRenamed s desk'.interner.pool desk.item desk'.item := by
  obtain ⟨_, _, hitem, h⟩ := estate_bind_eq_ok_iff.1 h
  cases hitem
  obtain ⟨name, _, hresolve, h⟩ := estate_bind_eq_ok_iff.1 h
  obtain ⟨hname, rfl⟩ := resolve_eq_ok_iff.1 hresolve
  split at h
  · next hnested =>
    subst hnested
    cases hpayload : NestedRecord.payload? desk.item.info with
    | some payload =>
      obtain ⟨records, rest⟩ := payload
      rw [hpayload] at h
      obtain ⟨d, hwork, rfl⟩ := Work.on_eq_ok_iff.1 h
      have hrecords :=
        (Work.each_eq_ok_iff.1 hwork).forall₂ (R := RecordRenamed s) RecordRenamed.mono
        renameNested_extending (fun _ _ => recordRenamed_of_renameNested) hsound hkeeps
      refine ⟨rfl, fun records' rest' _ hpayload' => ?_, fun hothers => ?_⟩
      · cases hpayload.symm.trans hpayload'
        exact ⟨d.item, rfl, hrecords⟩
      · exact absurd hpayload (hothers records rest hname)
    | none =>
      rw [hpayload] at h
      cases h
      exact ⟨rfl, fun _ _ _ hpayload' => by simp [hpayload] at hpayload', fun _ => rfl⟩
  · next hnested =>
    cases h
    exact ⟨rfl, fun _ _ hname' => absurd (Except.ok.inj (hname.symm.trans hname')) hnested,
      fun _ => rfl⟩

/-- Renaming the records in a list of attributes does so in each of them. -/
theorem nestedRenamed_of_each {desk desk' : Desk (List Attribute)} (hsound : desk.interner.Sound)
    (hkeeps : s.original.Keeps desk.interner.pool)
    (h : Work.each s.renameNestedAttribute desk = .ok () desk') :
    List.Forall₂ (NestedRenamed s desk'.interner.pool) desk.item desk'.item :=
  (Work.each_eq_ok_iff.1 h).forall₂ (R := NestedRenamed s) NestedRenamed.mono
    renameNestedAttribute_extending (fun _ _ => nestedRenamed_of_renameNestedAttribute) hsound
    hkeeps

end Sheet

end JarRefit.Renaming
