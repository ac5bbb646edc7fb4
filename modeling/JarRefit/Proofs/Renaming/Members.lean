import JarRefit.Proofs.ClassFile.Stripping

/-!
# What happens to members

Members of a class that is renamed, widened and stripped stay in their places. None becomes less
visible, and of its other flags only the final and the synthetic one can change.

## Main definitions

* `ClassFile.StaysSynthetic`: the classes that stripping passes over once they are renamed.
* `ClassFile.MemberCleaned`, `ClassFile.Cleaned`: what renaming, widening and stripping make of a
  member and of a class.
-/
namespace JarRefit

open Access ClassFile Naming Renaming

/-! ## Flags -/

namespace Access.Flags

/-- The flags that cleaning a member can touch. -/
def cleanable : Flags :=
  changeable.union .syntheticBit

theorem bit_cleanable (i : Nat) :
    cleanable.bit i = (decide (i < 3) || decide (i = 4) || decide (i = 12)) := by
  simp [cleanable, changeable, bit_visibilityMask, bit_finalBit, bit_syntheticBit]

theorem remove_cleanable_congr {f g : Flags} (h : ∀ i, 3 ≤ i → i ≠ 4 → i ≠ 12 → f.bit i = g.bit i) :
    f.remove cleanable = g.remove cleanable := by
  refine ext_bit fun i _ => ?_
  rw [bit_remove, bit_remove, bit_cleanable]
  by_cases hi : 3 ≤ i ∧ i ≠ 4 ∧ i ≠ 12
  · rw [h i hi.1 hi.2.1 hi.2.2]
  · have hmask : (decide (i < 3) || decide (i = 4) || decide (i = 12)) = true := by
      simp only [Bool.or_eq_true, decide_eq_true_eq]
      omega
    simp [hmask]

theorem visibility_remove_syntheticBit (f : Flags) :
    (f.remove .syntheticBit).visibility = f.visibility :=
  visibility_congr fun i hi => by
    have hne : i ≠ 12 := by omega
    simp [bit_syntheticBit, hne]

end Access.Flags

namespace ClassFile

variable {m : SymbolMapping} {table : Access.Table} {c c' renamed : ClassFile}
  {owner newName : String}

/-! ## Superclasses -/

theorem superName_eq_some_iff {name : String} : c.superName = .ok (some name) ↔
    c.superClass ≠ 0 ∧ c.pool.className c.superClass = .ok name := by
  unfold superName
  split
  · next hzero => simp [hzero]
  · next hsome =>
    cases c.pool.className c.superClass <;> simp [hsome, Functor.map, Except.map]

theorem header_rename (h : c.rename m = .ok newName c') :
    c'.access = c.access ∧ c'.superClass = c.superClass := by
  obtain ⟨_, _, _, desk, -, -, -, -, hdeclarations, rfl⟩ := rename_eq_ok h
  obtain ⟨_, _, _, _, -, -, -, -, rfl⟩ := Sheet.renameDeclarations_eq_ok_iff.1 hdeclarations
  exact ⟨rfl, rfl⟩

theorem superName_rename_iff (hc : c.pool.Addressable) (h : c.rename m = .ok newName c')
    {name : String} : c'.superName = .ok (some name) ↔
      ∃ cls, c.superName = .ok (some cls) ∧ name = renamedClass m cls := by
  simp only [superName_eq_some_iff, (header_rename h).2,
    (classRenamed_of_rename hc h).pool.className_eq_ok_iff, and_assoc, exists_and_left]

/-! ## Classes that stay synthetic -/

/-- The members of the class keep their synthetic flags once it is renamed: the class is synthetic
itself, or its flag or the new name of its superclass says that it is an enumeration. -/
def StaysSynthetic (m : SymbolMapping) (c : ClassFile) : Prop :=
  c.access.contains .syntheticBit = true ∨ c.access.contains .enumBit = true ∨
    ∃ cls, c.superName = .ok (some cls) ∧ renamedClass m cls = enumBase

theorem keepsSynthetics_rewritten (hc : c.pool.Addressable)
    (hrename : c.rename m = .ok newName renamed) (hwiden : renamed.widen table = .ok () c') :
    c'.KeepsSynthetics ↔ c.StaysSynthetic m := by
  obtain ⟨hchanged, -, hrest⟩ := classWidened_of_widen hwiden
  have hsuper : c'.superName = renamed.superName := by
    rw [hrest]
    rfl
  rw [(header_rename hrename).1] at hchanged
  simp only [KeepsSynthetics, StaysSynthetic, hsuper, superName_rename_iff hc hrename,
    Flags.contains_syntheticBit, Flags.contains_enumBit,
    hchanged.bit_eq (show 3 ≤ 12 by decide) (by decide),
    hchanged.bit_eq (show 3 ≤ 14 by decide) (by decide), eq_comm]

/-! ## Members -/

/-- What renaming, widening and stripping make of a member: it has its new name and descriptor, is
no less visible, keeps its other flags but the final one, and has its synthetic flag just if it had
it and its class stays synthetic. -/
structure MemberCleaned (s : Sheet) (kind : MemberKind) (stays : Prop) (new : ConstantPool)
    (d d' : Member) : Prop where
  resolved : ∃ name descriptor, s.original.text d.name = .ok name ∧
    s.original.text d.descriptor = .ok descriptor ∧
    new.text d'.name =
      .ok ((s.mapping.renameDeclared? kind s.owner name descriptor d.access).getD name) ∧
    new.text d'.descriptor = .ok (s.mapping.renameDescriptor descriptor)
  visibility : d.access.visibility ≤ d'.access.visibility
  others : d'.access.remove .cleanable = d.access.remove .cleanable
  kept : stays → d'.isSynthetic = d.isSynthetic
  cleared : ¬ stays → d'.isSynthetic = false

/-- What renaming, widening and stripping make of a class. -/
structure Cleaned (m : SymbolMapping) (c : ClassFile) (owner : String) (c' : ClassFile) :
    Prop where
  name : c.name = .ok owner
  members : ∀ kind, List.Forall₂
    (MemberCleaned ⟨m, c.pool, owner⟩ kind (c.StaysSynthetic m) c'.pool)
    (c.members kind) (c'.members kind)

theorem memberCleaned_of_widened {s : Sheet} {kind : MemberKind} {new : ConstantPool}
    {d renamed widened : Member} {stays : Prop} {keeps : Bool}
    (hrenamed : s.MemberRenamed (s.mapping.renameDeclared? kind s.owner) new d renamed)
    (hwidened : MemberWidened renamed widened) (hkeeps : keeps = true ↔ stays) :
    MemberCleaned s kind stays new d (if keeps then widened else widened.strip) := by
  obtain ⟨haccess, hresolved⟩ := hrenamed
  obtain ⟨hchanged, hrest⟩ := hwidened
  rw [haccess] at hchanged
  have hname : widened.name = renamed.name := by rw [hrest]
  have hdescriptor : widened.descriptor = renamed.descriptor := by rw [hrest]
  rw [← hname, ← hdescriptor] at hresolved
  cases keeps with
  | true =>
    refine ⟨hresolved, hchanged.visibility_le, ?_, fun _ => ?_, fun hnot => ?_⟩
    · exact Flags.remove_cleanable_congr fun i hi hfinal _ => hchanged.bit_eq hi hfinal
    · simp [Member.isSynthetic, Flags.contains_syntheticBit, hchanged.bit_eq]
    · exact absurd (hkeeps.1 rfl) hnot
  | false =>
    refine ⟨hresolved, ?_, ?_, fun hstays => ?_, fun _ => widened.isSynthetic_strip⟩
    · exact hchanged.visibility_le.trans_eq (Flags.visibility_remove_syntheticBit _).symm
    · refine Flags.remove_cleanable_congr fun i hi hfinal hsynthetic => ?_
      simp [Member.strip, Flags.bit_syntheticBit, hsynthetic, hchanged.bit_eq hi hfinal]
    · exact absurd (hkeeps.2 hstays) (by decide)

/-- What renaming, widening and stripping make of a class file that can be written. -/
theorem cleaned_of_rewrite (hc : c.Representable) (hrename : c.rename m = .ok newName renamed)
    (hwiden : renamed.widen table = .ok () c') {keeps : Bool}
    (hkeeps : c'.keepsSynthetics = .ok keeps) :
    ∃ owner, newName = m.renameClass owner ∧
      Cleaned m c owner (if keeps then c' else c'.stripped) := by
  have haddressable := ConstantPool.WithinLimits.addressable ⟨hc.size, hc.texts⟩
  obtain ⟨-, owner, howner, hnew, hdeclarations⟩ := classRenamed_of_rename haddressable hrename
  have hstays := (keepsSynthetics_eq_ok hkeeps).trans
    (keepsSynthetics_rewritten haddressable hrename hwiden)
  obtain ⟨-, hmembers, hrest⟩ := classWidened_of_widen hwiden
  refine ⟨owner, hnew, howner, fun kind => ?_⟩
  have hpool : (if keeps then c' else c'.stripped).pool = renamed.pool := by
    rw [hrest]
    split <;> rfl
  have hcleaned : (if keeps then c' else c'.stripped).members kind =
      (c'.members kind).map fun d => if keeps then d else d.strip := by
    cases keeps <;> cases kind <;> simp [stripped, members]
  rw [hpool, hcleaned, List.forall₂_map_right_iff]
  refine forall₂_trans ?_ (hdeclarations kind) (hmembers kind)
  intro d renamed widened hrenamed hwidened
  exact memberCleaned_of_widened hrenamed hwidened hstays

end ClassFile

end JarRefit
