import JarRefit.Proofs.Naming.Enclosing
import JarRefit.Proofs.Naming.Hierarchy
import JarRefit.Proofs.Renaming.Body
import JarRefit.Proofs.Renaming.PoolEdits

/-!
# Renaming a class

Renaming a class renames its constants as a whole: each constant becomes what the mapping makes of
it, whichever constants share their text, and only text and name-and-types are added.

## Main definitions

* `PoolRenamed`: what renaming makes of a constant pool.
* `ClassFile.ClassRenamed`: what it makes of a class.
-/
namespace JarRefit

open ClassFile Naming Renaming

namespace Renaming

/-- The new pool has each constant of the old one renamed, and shared constants behind them. -/
structure PoolRenamed (m : SymbolMapping) (old new : ConstantPool) : Prop where
  renamed : ∀ (i : Nat) k, old.slots[i]? = some k →
    ∃ k', new.slots[i]? = some k' ∧ Renamed m old new k k'
  appended : ∀ (i : Nat) k, old.size ≤ i → new.slots[i]? = some k → k.isShared = true

variable {m : SymbolMapping} {original old new : ConstantPool}

theorem PoolRenamed.grows (h : PoolRenamed m original old) (hgrows : old.Grows new) :
    PoolRenamed m original new where
  renamed i k hk := by
    obtain ⟨k', hk', hrenamed⟩ := h.renamed i k hk
    exact ⟨k', hgrows.getElem? hk', hrenamed.mono hgrows.keeps⟩
  appended i k hi hk := by
    rcases hgrows.getElem?_or hk with hk | hshared
    · exact h.appended i k hi hk
    · exact hshared

/-- Only a class becomes a class. -/
theorem Renamed.eq_classRef {k : Constant} {n' : UInt16} (h : Renamed m old new k (.classRef n')) :
    ∃ n name, k = .classRef n ∧ old.text n = .ok name ∧
      new.text n' = .ok (renamedClass m name) := by
  cases k with
  | classRef n =>
    obtain ⟨_, name, hsame, hname, hrenamed⟩ := h
    cases hsame
    exact ⟨n, name, rfl, hname, hrenamed⟩
  | methodType =>
    obtain ⟨_, _, hsame, -⟩ := h
    cases hsame
  | fieldRef | methodRef | interfaceMethodRef | dynamic | invokeDynamic =>
    obtain ⟨_, hsame, -⟩ := h
    cases hsame
  | _ => cases h

/-- The classes of the new pool are those of the old one, under their new names. -/
theorem PoolRenamed.className_eq_ok_iff (h : PoolRenamed m old new) {i : UInt16} {name : String} :
    new.className i = .ok name ↔ ∃ cls, old.className i = .ok cls ∧ name = renamedClass m cls := by
  simp only [ConstantPool.className_eq_ok_iff]
  constructor
  · rintro ⟨n, hn, hname⟩
    by_cases hi : i.toNat < old.size
    · obtain ⟨k', hk', hrenamed⟩ := h.renamed _ _ (Array.getElem?_eq_getElem hi)
      obtain rfl := Option.some.inj (hk'.symm.trans hn)
      obtain ⟨n', cls, hclass, hcls, htext⟩ := hrenamed.eq_classRef
      refine ⟨cls, ⟨n', ?_, hcls⟩, Except.ok.inj (hname.symm.trans htext)⟩
      rw [Array.getElem?_eq_getElem hi, hclass]
    · have hshared := h.appended _ _ (Nat.not_lt.1 hi) hn
      cases hshared
  · rintro ⟨cls, ⟨n, hn, hcls⟩, rfl⟩
    obtain ⟨_, hk', n', name, rfl, hname, hrenamed⟩ := h.renamed _ _ hn
    obtain rfl := Except.ok.inj (hcls.symm.trans hname)
    exact ⟨n', hk', hrenamed⟩

theorem editConstants_eq_ok {edits : List PoolEdit} {desk desk' : Desk ClassFile}
    (h : editConstants edits desk = .ok () desk') :
    ∃ interner, PoolEdit.applyAll edits desk.interner = .ok () interner ∧
      desk' = { desk with interner } := by
  unfold editConstants at h
  cases hrun : PoolEdit.applyAll edits desk.interner with
  | error e interner => simp [hrun] at h
  | ok c interner =>
    simp only [hrun, EStateM.Result.ok.injEq] at h
    exact ⟨interner, rfl, h.2.symm⟩

end Renaming

namespace ClassFile

variable {m : SymbolMapping} {c c' : ClassFile} {newName : String}

/-- The steps of renaming a class: the edits planned on the constants as they were, the run over
them, and the declarations. -/
theorem rename_eq_ok (h : c.rename m = .ok newName c') :
    ∃ owner edits edited desk, c.name = .ok owner ∧ newName = m.renameClass owner ∧
      c.pool.entries.mapM (PoolEdit.planEntry m c.pool) = .ok edits ∧
      PoolEdit.applyAll (edits.filterMap id) (.ofPool c.pool) = .ok () edited ∧
      Sheet.renameDeclarations ⟨m, c.pool, owner⟩ ⟨edited, c⟩ = .ok () desk ∧
      c' = desk.classFile := by
  unfold rename at h
  split at h
  · cases h
  · next owner edits hplan =>
    obtain ⟨_, hname, hplan⟩ := except_bind_eq_ok_iff.1 hplan
    obtain ⟨_, hedits, hplan⟩ := except_bind_eq_ok_iff.1 hplan
    cases hplan
    obtain ⟨planned, hplanned, hedits⟩ := except_bind_eq_ok_iff.1 hedits
    cases hedits
    dsimp only at h
    split at h
    · cases h
    · next desk hwork =>
      cases h
      obtain ⟨_, _, hedit, hdeclarations⟩ := estate_bind_eq_ok_iff.1 hwork
      obtain ⟨edited, hrun, rfl⟩ := editConstants_eq_ok hedit
      exact ⟨owner, planned, edited, desk, hname, rfl, hplanned, hrun, hdeclarations, rfl⟩

/-- A class stays as it is where no constant is edited and no declaration is renamed. -/
theorem rename_eq_self (hc : c.pool.Addressable) {owner : String} (hname : c.name = .ok owner)
    (hplan : PoolEdit.plan m c.pool = .ok [])
    (hdeclarations : Sheet.renameDeclarations ⟨m, c.pool, owner⟩ ⟨.ofPool c.pool, c⟩ =
      .ok () ⟨.ofPool c.pool, c⟩) :
    c.rename m = .ok (m.renameClass owner) c := by
  have hedits : PoolEdit.applyAll [] (.ofPool c.pool) = .ok () (.ofPool c.pool) := rfl
  have hpool := (Interner.sound_ofPool hc).2
  simp only [rename, hname, hplan, bind, pure, Except.bind, Except.pure, EStateM.bind,
    editConstants, hedits, hdeclarations, Desk.classFile, hpool]

/-- What renaming makes of a class, and the name it gives. -/
structure ClassRenamed (m : SymbolMapping) (c : ClassFile) (newName : String) (c' : ClassFile) :
    Prop where
  pool : PoolRenamed m c.pool c'.pool
  declarations : ∃ owner, c.name = .ok owner ∧ newName = m.renameClass owner ∧
    Sheet.DeclarationsRenamed ⟨m, c.pool, owner⟩ c'.pool c c'

/-- Renaming a class renames its constants and everything behind them. -/
theorem renamed_of_rename (hc : c.pool.Addressable) (h : c.rename m = .ok newName c') :
    ∃ owner, c.name = .ok owner ∧ newName = m.renameClass owner ∧ PoolRenamed m c.pool c'.pool ∧
      Sheet.BodyRenamed ⟨m, c.pool, owner⟩ c'.pool c c' := by
  obtain ⟨owner, edits, edited, desk, hname, hnew, hplan, hrun, hdeclarations, rfl⟩ :=
    rename_eq_ok h
  have hedited := (Progress.start hc).run hplan hrun
  have hpool : PoolRenamed m c.pool edited.pool :=
    ⟨fun i k hk => hedited.renamed i k hk (by simp), hedited.appended⟩
  have hext := Sheet.renameDeclarations_extending hedited.sound hdeclarations
  obtain ⟨hframe, hmembers, hattributes⟩ :=
    Sheet.bodyRenamed_of_renameDeclarations hedited.sound hedited.keeps hdeclarations
  refine ⟨owner, hname, hnew, hpool.grows hext.grows, ?_, hmembers, hattributes⟩
  rw [Desk.classFile, hframe]

theorem classRenamed_of_rename (hc : c.pool.Addressable) (h : c.rename m = .ok newName c') :
    ClassRenamed m c newName c' := by
  obtain ⟨owner, hname, hnew, hpool, hbody⟩ := renamed_of_rename hc h
  exact ⟨hpool, owner, hname, hnew, hbody.declarations⟩

/-! ### A class that refers to its own field -/

/-- A class `f` with a private field `d` of type `I` and a reference to it. -/
def heir : ClassFile where
  minorVersion := 0
  majorVersion := 52
  pool := ⟨#[.unusable, .utf8 (Utf8.encode "f"), .classRef 1, .utf8 (Utf8.encode "d"),
    .utf8 (Utf8.encode "I"), .nameAndType 3 4, .fieldRef 2 5]⟩
  access := ⟨1⟩
  thisClass := 2
  superClass := 0
  interfaces := []
  fields := [⟨.privateBit, 3, 4, []⟩]
  methods := []
  attributes := []

/-- The class with the name-and-type of its reference replaced. -/
def heirRenamed : ClassFile :=
  { heir with
    pool := ⟨#[.unusable, .utf8 (Utf8.encode "f"), .classRef 1, .utf8 (Utf8.encode "d"),
      .utf8 (Utf8.encode "I"), .nameAndType 3 4, .fieldRef 2 8, .utf8 (Utf8.encode "field_1"),
      .nameAndType 7 4]⟩ }

/-- A new name for the field `d` of `a`, with `f` below `a`. -/
def heirMapping : SymbolMapping :=
  { SymbolMapping.empty.addField "a" "d" "field_1" with
    hierarchy := some ⟨[(∅ : ParentTable).insert "f" ["a"]]⟩ }

theorem renameClass_heir : heirMapping.renameClass "f" = "f" := by
  have hentry : heirMapping.classes["f"]? = none := by
    simp [heirMapping, SymbolMapping.addField, SymbolMapping.empty]
  rw [SymbolMapping.renameClass_of_free hentry (by decide)]
  simp [heirMapping, SymbolMapping.addField, SymbolMapping.empty, SymbolMapping.relocate]

theorem renameDescriptor_int (m : SymbolMapping) : m.renameDescriptor "I" = "I" := by
  have hcut : Text.cut? 'L' "I".toList = none := by decide
  rw [SymbolMapping.renameDescriptor, Descriptor.rename, Descriptor.renameChars]
  split <;> simp_all

theorem fieldEntry_heir : heirMapping.fieldEntry? "d" "f" = none := by
  simp [heirMapping, SymbolMapping.fieldEntry?, SymbolMapping.addField, SymbolMapping.empty,
    SymbolMapping.fieldKey]

theorem renameField_heir : heirMapping.renameField? "f" "d" = some "field_1" := by
  simp [SymbolMapping.renameField?, SymbolMapping.findInHierarchy, heirMapping, Hierarchy.find?,
    Hierarchy.search_cons, SymbolMapping.fieldEntry?, SymbolMapping.addField, SymbolMapping.empty,
    SymbolMapping.fieldKey, Std.HashMap.getElem_insertIfNew, Hierarchy.parents?, Hierarchy.parents]

theorem name_heir : heir.name = .ok "f" :=
  ConstantPool.className_eq_ok_iff.2 ⟨1, rfl, ConstantPool.text_eq_ok_iff.2 rfl⟩

theorem plan_heir : PoolEdit.plan heirMapping heir.pool = .ok [.nameAndType 6 "field_1" "I"] := by
  simp [PoolEdit.plan, heir, ConstantPool.entries, PoolEdit.planEntry, PoolEdit.planReference,
    ConstantPool.text, ConstantPool.get, ConstantPool.className, ConstantPool.nameAndType, bind,
    Except.bind, pure, Except.pure, Utf8.decode?_encode, PoolEdit.newClassName,
    PoolEdit.newMemberName?, PoolEdit.isArrayName, renameClass_heir, renameDescriptor_int,
    renameField_heir]

theorem applyAll_heir :
    ∃ interner, PoolEdit.applyAll [.nameAndType 6 "field_1" "I"] (.ofPool heir.pool) =
      .ok () interner ∧ interner.pool = heirRenamed.pool := by
  have hsize : "field_1".utf8ByteSize = 7 := by decide
  simp [PoolEdit.applyAll, List.forM, PoolEdit.apply, PoolEdit.withNameAndType?, heir, heirRenamed,
    Interner.nameAndType, Interner.text, Interner.ofPool, Interner.note, Interner.onPool,
    Interner.update, ConstantPool.entries, ConstantPool.pushText, ConstantPool.push,
    ConstantPool.size, ConstantPool.limit, ConstantPool.get, ConstantPool.set, Constant.width,
    Constant.isWide, bind, pure, EStateM.bind, EStateM.pure, Except.bind, Except.pure,
    estate_get_eq, estate_modify_eq, hsize, Utf8.encode_ne,
    Std.HashMap.getElem_insert, Std.HashMap.getElem_insertIfNew]

theorem renameDeclarations_heir (interner : Interner) :
    Sheet.renameDeclarations ⟨heirMapping, heir.pool, "f"⟩ ⟨interner, heir⟩ =
      .ok () ⟨interner, heir⟩ := by
  have hflags : SymbolMapping.isInheritable .privateBit = false := by decide
  simp [Sheet.renameDeclarations, Sheet.renameField, Sheet.renameMember_eq, Sheet.resolve,
    Sheet.unlessSame, heir, Work.on, Work.each, Work.each.go, Work.item, Work.repoint,
    ConstantPool.text, ConstantPool.get, bind, pure, EStateM.bind, EStateM.pure, estate_get_eq,
    Except.bind, Utf8.decode?_encode, SymbolMapping.renameDeclaredField?, hflags, fieldEntry_heir,
    renameDescriptor_int]

theorem rename_heir : heir.rename heirMapping = .ok "f" heirRenamed := by
  obtain ⟨interner, happly, hpool⟩ := applyAll_heir
  simp only [rename, name_heir, plan_heir, bind, pure, Except.bind, Except.pure, EStateM.bind,
    editConstants, happly, renameDeclarations_heir, renameClass_heir, Desk.classFile, hpool]
  rfl

/-! ### Constants -/

/-- Renaming a class renames each of its constants and adds shared ones only. -/
theorem poolRenamed_of_rename (hc : c.pool.Addressable) (h : c.rename m = .ok newName c') :
    PoolRenamed m c.pool c'.pool :=
  (classRenamed_of_rename hc h).pool

theorem poolRenamed_heir :
    heir.pool.Addressable ∧ heir.rename heirMapping = .ok "f" heirRenamed ∧
      PoolRenamed heirMapping heir.pool heirRenamed.pool :=
  ⟨by decide, rename_heir, poolRenamed_of_rename (by decide) rename_heir⟩

end ClassFile

end JarRefit
