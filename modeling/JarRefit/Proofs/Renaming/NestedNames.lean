import JarRefit.Proofs.Renaming.Exactness
import JarRefit.Proofs.Text.Split

/-!
# Names of nested classes

A nested class is named by the class around it, a `$` and its simple name, and its record holds all
three. The two classes get their new names in the constants and the simple name in the record, and
still the three fit together afterwards, as long as the mapping leaves the class nested.

## Main definitions

* `NestedRecord.Nests`: a record whose class is named by its outer class and its simple name.
-/
namespace JarRefit

open ClassFile Naming Renaming
open Naming.Grammar (nestedName toList_nestedName)

namespace Renaming

theorem simpleName?_nestedName (outer : String) {simple : String} (hne : simple ≠ "")
    (hfree : '$' ∉ simple.toList) : simpleName? (nestedName outer simple) = some simple := by
  rw [simpleName?, toList_nestedName, Text.cutLast?_append hfree]
  simp [hne]

/-- A class is no array if the class around it is none. -/
theorem head?_nestedName_ne {outer : String} (simple : String)
    (houter : outer.toList.head? ≠ some '[') :
    (nestedName outer simple).toList.head? ≠ some '[' := by
  rw [toList_nestedName]
  cases h : outer.toList with
  | nil => simp
  | cons d rest => simpa [h] using houter

/-- The record has a class whose name is that of its outer class, a `$` and its simple name. -/
structure NestedRecord.Nests (pool : ConstantPool) (r : NestedRecord) (host simple : String) :
    Prop where
  outer : pool.className r.outer = .ok host
  name : pool.text r.name = .ok simple
  inner : pool.className r.inner = .ok (nestedName host simple)

/-- Slot 0 holds nothing, so such a record has a class and a simple name. -/
theorem NestedRecord.Nests.counts {pool : ConstantPool} {r : NestedRecord} {outer simple : String}
    (h : r.Nests pool outer simple) (hzero : pool.Headed) : r.Counts := by
  constructor
  · intro hinner
    obtain ⟨n, hn, -⟩ := ConstantPool.className_eq_ok_iff.1 h.inner
    rw [hinner, UInt16.toNat_zero, hzero] at hn
    cases hn
  · intro hname
    have hn := ConstantPool.text_eq_ok_iff.1 h.name
    rw [hname, UInt16.toNat_zero, hzero] at hn
    cases hn

end Renaming

namespace ClassFile

variable {m : SymbolMapping} {c c' : ClassFile} {newName : String}

/-- The record of a class that stays nested fits together after renaming as it did before: its outer
class has its new name, and its simple name is what the new name of its class adds to that. -/
theorem nests_rename (hc : c.pool.Addressable) (hzero : c.pool.Headed)
    (h : c.rename m = .ok newName c') {k i : Nat} {a : Attribute} {records : List NestedRecord}
    {rest : List UInt8} {r : NestedRecord} {outer simple newSimple : String}
    (ha : c.attributes[k]? = some a) (hname : c.pool.text a.name = .ok Sheet.nestedName)
    (hpayload : NestedRecord.payload? a.info = some (records, rest))
    (hr : records[i]? = some r) (hnests : r.Nests c.pool outer simple)
    (houter : outer.toList.head? ≠ some '[')
    (hnested : m.renameClass (nestedName outer simple) =
      nestedName (m.renameClass outer) newSimple)
    (hne : newSimple ≠ "") (hfree : '$' ∉ newSimple.toList) :
    ∃ a' records' r', c'.attributes[k]? = some a' ∧ a'.name = a.name ∧
      NestedRecord.payload? a'.info = some (records', rest) ∧ records'[i]? = some r' ∧
      r'.inner = r.inner ∧ r'.outer = r.outer ∧
      r'.Nests c'.pool (m.renameClass outer) newSimple := by
  obtain ⟨owner, -, -, hpool, hbody⟩ := renamed_of_rename hc h
  obtain ⟨a', ha', hattribute⟩ := exists_getElem?_of_forall₂ hbody.attributes ha
  obtain ⟨records', hinfo, hrecords⟩ :=
    (hattribute.nested hname).records records rest hname hpayload
  obtain ⟨r', hr', hrecord⟩ := exists_getElem?_of_forall₂ hrecords hr
  obtain ⟨hfits, -⟩ := NestedRecord.payload?_eq_some_iff.1 hpayload
  have hpayload' := NestedRecord.payload?_eq_some_iff.2 ⟨hrecords.length_eq ▸ hfits, hinfo⟩
  have hinner : r'.inner = r.inner := by rw [hrecord.frame]
  have houter' : r'.outer = r.outer := by rw [hrecord.frame]
  refine ⟨a', records', r', ha', hattribute.name, hpayload', hr', hinner, houter', ?_, ?_, ?_⟩
  · rw [houter', hpool.className_eq_ok_iff]
    exact ⟨outer, hnests.outer, by rw [renamedClass, if_neg houter]⟩
  · -- The simple name is cut off the new name of the class.
    obtain ⟨old, cls, -, hcls, hsimple⟩ := hrecord.resolved (hnests.counts hzero)
    obtain rfl := Except.ok.inj (hnests.inner.symm.trans hcls)
    rwa [hnested, simpleName?_nestedName _ hne hfree] at hsimple
  · rw [hinner, hpool.className_eq_ok_iff]
    refine ⟨_, hnests.inner, ?_⟩
    rw [renamedClass, if_neg (head?_nestedName_ne simple houter), hnested]

theorem nests_rename_nesting :
    nesting.pool.Addressable ∧ nesting.rename nestingMapping = .ok "x" nestingRenamed ∧
      NestedRecord.Nests nesting.pool ⟨2, 4, 5, 1⟩ "a" "b" ∧
      nestingMapping.renameClass (nestedName "a" "b") =
        nestedName (nestingMapping.renameClass "a") "c" ∧
      NestedRecord.Nests nestingRenamed.pool ⟨2, 4, 15, 1⟩ "x" "c" := by
  have haddressable : nesting.pool.Addressable := by decide
  have hold : nestedName "a" "b" = "a$b" := by decide
  have hnew : nestedName "x" "c" = "x$c" := by decide
  have hnests : NestedRecord.Nests nesting.pool ⟨2, 4, 5, 1⟩ "a" "b" :=
    ⟨className_nesting.2, text_nesting.2.2.1, hold ▸ className_nesting.1⟩
  have hnested : nestingMapping.renameClass (nestedName "a" "b") =
      nestedName (nestingMapping.renameClass "a") "c" := by
    rw [hold, classes_nestingMapping.1, classes_nestingMapping.2, hnew]
  have hread (r : NestedRecord) :
      NestedRecord.payload? (NestedRecord.encodePayload [r] []) = some ([r], []) :=
    NestedRecord.payload?_eq_some_iff.2 ⟨by simp, rfl⟩
  obtain ⟨a', records', r', ha', -, hpayload, hr', -, -, hnests'⟩ :=
    nests_rename (i := 0) (k := 1) haddressable rfl rename_nesting rfl text_nesting.2.2.2.1
      (hread _) rfl hnests (by decide) hnested (by decide) (by decide)
  cases ha'
  cases (hread _).symm.trans hpayload
  cases hr'
  rw [classes_nestingMapping.1] at hnests'
  exact ⟨haddressable, rename_nesting, hnests, hnested, hnests'⟩

end ClassFile

end JarRefit
