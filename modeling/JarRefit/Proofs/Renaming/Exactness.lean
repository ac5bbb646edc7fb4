import JarRefit.Proofs.Naming.DescriptorTree
import JarRefit.Proofs.Renaming.Class

/-!
# The new name of a class, and what else renaming changes

Renaming gives the name that the mapping has for the class, and leaves a class file of that name, in
which nothing is changed but what has a new name. A class constant can hold the descriptor of an
array, though, and a class that is named by one gets a new descriptor.
-/
namespace JarRefit

open ClassFile Naming Renaming

/-- A method with a reserved name gets no other one, whatever its flags. -/
theorem Naming.SymbolMapping.renameDeclaredMethod?_of_isReserved (m : SymbolMapping)
    {name : String} (hname : isReserved name = true) (owner descriptor : String)
    (access : Access.Flags) : m.renameDeclaredMethod? owner name descriptor access = none := by
  simp [renameDeclaredMethod?, renameMethod?, hname]

namespace ClassFile

variable {m : SymbolMapping} {c c' : ClassFile} {newName : String}

/-- The class has its new name after renaming. -/
theorem name_rename (hc : c.pool.Addressable) (h : c.rename m = .ok newName c') {owner : String}
    (howner : c.name = .ok owner) : c'.name = .ok (renamedClass m owner) := by
  obtain ⟨_, -, -, hpool, hbody⟩ := renamed_of_rename hc h
  rw [hbody.frame]
  exact hpool.className_eq_ok_iff.2 ⟨owner, howner, rfl⟩

/-- Renaming gives the new name of the class, which is its name afterwards unless an array names it,
and makes of everything behind the constants what the mapping says and nothing else. -/
theorem rename_exact (hc : c.pool.Addressable) (h : c.rename m = .ok newName c') :
    ∃ owner, c.name = .ok owner ∧ newName = m.renameClass owner ∧
      c'.name =
        .ok (if owner.toList.head? = some '[' then m.renameDescriptor owner else newName) ∧
      Sheet.BodyRenamed ⟨m, c.pool, owner⟩ c'.pool c c' ∧
      ∀ name descriptor access, SymbolMapping.isReserved name = true →
        m.renameDeclaredMethod? owner name descriptor access = none := by
  obtain ⟨owner, howner, hnew, -, hbody⟩ := renamed_of_rename hc h
  refine ⟨owner, howner, hnew, ?_, hbody, fun name descriptor access hname =>
    m.renameDeclaredMethod?_of_isReserved hname owner descriptor access⟩
  rw [name_rename hc h howner, hnew, renamedClass]

/-! ### A class with a nested class -/

/-- A class `a` with a private field `d`, a signature and a record of its nested class `a$b`. -/
def nesting : ClassFile where
  minorVersion := 0
  majorVersion := 52
  pool := ⟨#[.unusable, .utf8 (Utf8.encode "a$b"), .classRef 1, .utf8 (Utf8.encode "a"),
    .classRef 3, .utf8 (Utf8.encode "b"), .utf8 (Utf8.encode "InnerClasses"),
    .utf8 (Utf8.encode "Signature"), .utf8 (Utf8.encode "La;"), .utf8 (Utf8.encode "d"),
    .utf8 (Utf8.encode "I")]⟩
  access := ⟨0x21⟩
  thisClass := 4
  superClass := 0
  interfaces := []
  fields := [⟨.privateBit, 9, 10, []⟩]
  methods := []
  attributes := [⟨7, [0, 8]⟩, ⟨6, NestedRecord.encodePayload [⟨2, 4, 5, 1⟩] []⟩]

/-- New names for both classes and for the field. -/
def nestingMapping : SymbolMapping :=
  ((SymbolMapping.empty.addClass "a" "x").addClass "a$b" "x$c").addField "a" "d" "e"

/-- The constants with the new names of both classes. -/
def nestingEdited : ConstantPool :=
  ⟨#[.unusable, .utf8 (Utf8.encode "a$b"), .classRef 11, .utf8 (Utf8.encode "a"),
    .classRef 12, .utf8 (Utf8.encode "b"), .utf8 (Utf8.encode "InnerClasses"),
    .utf8 (Utf8.encode "Signature"), .utf8 (Utf8.encode "La;"), .utf8 (Utf8.encode "d"),
    .utf8 (Utf8.encode "I"), .utf8 (Utf8.encode "x$c"), .utf8 (Utf8.encode "x")]⟩

def nestingRenamed : ClassFile :=
  { nesting with
    pool := ⟨nestingEdited.slots ++ #[.utf8 (Utf8.encode "e"), .utf8 (Utf8.encode "Lx;"),
      .utf8 (Utf8.encode "c")]⟩
    fields := [⟨.privateBit, 13, 10, []⟩]
    attributes := [⟨7, [0, 14]⟩, ⟨6, NestedRecord.encodePayload [⟨2, 4, 15, 1⟩] []⟩] }

theorem classes_nestingMapping :
    nestingMapping.renameClass "a" = "x" ∧ nestingMapping.renameClass "a$b" = "x$c" := by
  constructor <;> apply SymbolMapping.renameClass_of_entry <;>
    simp [nestingMapping, SymbolMapping.addClass, SymbolMapping.addField, SymbolMapping.empty,
      Std.HashMap.getElem_insertIfNew]

theorem text_nesting : nesting.pool.text 1 = .ok "a$b" ∧ nesting.pool.text 3 = .ok "a" ∧
    nesting.pool.text 5 = .ok "b" ∧ nesting.pool.text 6 = .ok "InnerClasses" ∧
    nesting.pool.text 7 = .ok "Signature" ∧ nesting.pool.text 8 = .ok "La;" ∧
    nesting.pool.text 9 = .ok "d" ∧ nesting.pool.text 10 = .ok "I" := by
  simp [nesting, ConstantPool.text_eq_ok_iff]

theorem className_nesting : nesting.pool.className 2 = .ok "a$b" ∧
    nesting.pool.className 4 = .ok "a" := by
  simp [nesting, ConstantPool.text_eq_ok_iff, ConstantPool.className_eq_ok_iff]

theorem plan_nesting : PoolEdit.plan nestingMapping nesting.pool =
    .ok [.className 2 "x$c", .className 4 "x"] := by
  simp [PoolEdit.plan, nesting, ConstantPool.entries, PoolEdit.planEntry, ConstantPool.text,
    ConstantPool.get, bind, Except.bind, pure, Except.pure, Utf8.decode?_encode,
    PoolEdit.newClassName, PoolEdit.isArrayName, classes_nestingMapping]

theorem applyAll_nesting : ∃ interner,
    PoolEdit.applyAll [.className 2 "x$c", .className 4 "x"] (.ofPool nesting.pool) =
      .ok () interner ∧ interner.Sound ∧ interner.pool = nestingEdited := by
  have haddressable : nesting.pool.Addressable := by decide
  obtain ⟨hsound, hpool⟩ := Interner.sound_ofPool haddressable
  obtain ⟨middle, hinner, hmiddle, hpool₁⟩ := PoolEdit.apply_className_of_absent hsound 2 1 "x$c"
    (by rw [hpool]; rfl) (by rw [hpool]; simp [nesting, Utf8.encode_ne]) (by decide)
    (by rw [hpool]; decide)
  rw [hpool] at hpool₁
  obtain ⟨last, houter, hlast, hpool₂⟩ := PoolEdit.apply_className_of_absent hmiddle 4 3 "x"
    (by rw [hpool₁]; rfl) (by rw [hpool₁]; simp [nesting, Utf8.encode_ne]) (by decide)
    (by rw [hpool₁]; decide)
  refine ⟨last, ?_, hlast, ?_⟩
  · exact (estate_bind_of_ok hinner _).trans (estate_bind_of_ok houter _)
  · rw [hpool₂, hpool₁]
    rfl

theorem fieldEntry_nesting : nestingMapping.fieldEntry? "d" "a" = some "e" := by
  simp [nestingMapping, SymbolMapping.fieldEntry?, SymbolMapping.addField, SymbolMapping.addClass,
    SymbolMapping.empty, SymbolMapping.fieldKey, Std.HashMap.getElem_insertIfNew]

theorem renameSignature?_nesting : nestingMapping.renameSignature? "La;" = some "Lx;" := by
  have hparse : Signature.parse? "La;".toList = some ⟨none, [.type (.cls "a" .absent .nil)]⟩ := by
    rfl
  rw [SymbolMapping.renameSignature?, Signature.rename?, hparse]
  simp [Signature.renameTree, SignaturePart.rename, TypeSig.rename, TypeArgs.rename,
    InnerSegments.rename, classes_nestingMapping, Signature.print, SignaturePart.print,
    TypeSig.print, TypeArgs.print, InnerSegments.print]

theorem renameField_nesting {interner named : Interner}
    (h : Interner.text "e" interner = .ok 13 named) :
    Sheet.renameField ⟨nestingMapping, nesting.pool, "a"⟩ ⟨interner, ⟨.privateBit, 9, 10, []⟩⟩ =
      .ok () ⟨named, ⟨.privateBit, 13, 10, []⟩⟩ := by
  have hflags : SymbolMapping.isInheritable .privateBit = false := by decide
  simp [Sheet.renameField, Sheet.renameMember_eq, Work.each, Work.each.go, Work.item, Work.repoint,
    Work.text, Work.change, Work.on, Sheet.resolve, Sheet.unlessSame, h, bind, pure, EStateM.bind,
    EStateM.pure, estate_get_eq, estate_modify_eq, SymbolMapping.renameDeclaredField?, hflags,
    fieldEntry_nesting, renameDescriptor_int, text_nesting]

theorem renameSignature_nesting {interner signed : Interner}
    (h : Interner.text "Lx;" interner = .ok 14 signed) :
    Sheet.renameSignature ⟨nestingMapping, nesting.pool, "a"⟩ ⟨interner, ⟨7, [0, 8]⟩⟩ =
      .ok () ⟨signed, ⟨7, [0, 14]⟩⟩ := by
  simp [Sheet.renameSignature, Work.item, Work.text, Work.change, Sheet.resolve, h, bind, pure,
    EStateM.bind, EStateM.pure, estate_get_eq, estate_modify_eq, text_nesting, Sheet.signatureName,
    renameSignature?_nesting, encodeU16]
  rfl

theorem renameNested_nesting {interner last : Interner}
    (h : Interner.text "c" interner = .ok 15 last) :
    Sheet.renameNested ⟨nestingMapping, nesting.pool, "a"⟩ ⟨interner, ⟨2, 4, 5, 1⟩⟩ =
      .ok () ⟨last, ⟨2, 4, 15, 1⟩⟩ := by
  have hsimple : simpleName? "x$c" = some "c" := by decide
  have hother : Sheet.unlessSame "b" "c" = some "c" := by decide
  simp [Sheet.renameNested_eq, Work.item, Work.repoint, Work.text, Work.change, Sheet.resolve,
    text_nesting, className_nesting, classes_nestingMapping, hsimple, hother, h, bind, pure,
    EStateM.bind, EStateM.pure, estate_get_eq, estate_modify_eq]

theorem renameNestedAttribute_nesting {interner last : Interner}
    (h : Interner.text "c" interner = .ok 15 last) :
    Sheet.renameNestedAttribute ⟨nestingMapping, nesting.pool, "a"⟩
        ⟨interner, ⟨6, NestedRecord.encodePayload [⟨2, 4, 5, 1⟩] []⟩⟩ =
      .ok () ⟨last, ⟨6, NestedRecord.encodePayload [⟨2, 4, 15, 1⟩] []⟩⟩ := by
  have hpayload : NestedRecord.payload? (NestedRecord.encodePayload [⟨2, 4, 5, 1⟩] []) =
      some ([⟨2, 4, 5, 1⟩], []) := NestedRecord.payload?_eq_some_iff.2 ⟨by decide, rfl⟩
  simp [Sheet.renameNestedAttribute, Work.item, Work.on, Work.each, Work.each.go, Sheet.resolve,
    text_nesting, hpayload, renameNested_nesting h, Sheet.nestedName, bind, pure, EStateM.bind,
    EStateM.pure, estate_get_eq]

/-- The attribute with the other name is passed over. -/
theorem other_nesting (interner : Interner) :
    Sheet.renameSignature ⟨nestingMapping, nesting.pool, "a"⟩
        ⟨interner, ⟨6, NestedRecord.encodePayload [⟨2, 4, 5, 1⟩] []⟩⟩ =
      .ok () ⟨interner, ⟨6, NestedRecord.encodePayload [⟨2, 4, 5, 1⟩] []⟩⟩ ∧
    Sheet.renameNestedAttribute ⟨nestingMapping, nesting.pool, "a"⟩ ⟨interner, ⟨7, [0, 14]⟩⟩ =
      .ok () ⟨interner, ⟨7, [0, 14]⟩⟩ := by
  simp [Sheet.renameSignature, Sheet.renameNestedAttribute, Work.item, Sheet.resolve, text_nesting,
    Sheet.signatureName, Sheet.nestedName, bind, pure, EStateM.bind, EStateM.pure, estate_get_eq]

theorem renameDeclarations_nesting {interner : Interner} (hsound : interner.Sound)
    (hpool : interner.pool = nestingEdited) :
    ∃ last, Sheet.renameDeclarations ⟨nestingMapping, nesting.pool, "a"⟩ ⟨interner, nesting⟩ =
        .ok () ⟨last, { nestingRenamed with pool := nesting.pool }⟩ ∧
      last.pool = nestingRenamed.pool := by
  obtain ⟨named, hname, hnamed, hpool₁⟩ := hsound.text_of_absent "e"
    (by rw [hpool]; simp [nestingEdited, Utf8.encode_ne]) (by decide) (by rw [hpool]; decide)
  rw [hpool] at hpool₁ hname
  obtain ⟨signed, hsignature, hsigned, hpool₂⟩ := hnamed.text_of_absent "Lx;"
    (by rw [hpool₁]; simp [nestingEdited, Utf8.encode_ne]) (by decide) (by rw [hpool₁]; decide)
  rw [hpool₁] at hpool₂ hsignature
  obtain ⟨last, hsimple, -, hpool₃⟩ := hsigned.text_of_absent "c"
    (by rw [hpool₂]; simp [nestingEdited, Utf8.encode_ne]) (by decide) (by rw [hpool₂]; decide)
  rw [hpool₂] at hpool₃ hsimple
  refine ⟨last, Sheet.renameDeclarations_eq_ok_iff.2 ⟨⟨named, _⟩, ⟨named, []⟩, ⟨signed, _⟩,
    ⟨last, _⟩, Work.each_eq_ok_iff.2 (.cons (renameField_nesting hname) (.nil _)), rfl,
    Work.each_eq_ok_iff.2 (.cons (renameSignature_nesting hsignature)
      (.cons (other_nesting signed).1 (.nil _))),
    Work.each_eq_ok_iff.2 (.cons (other_nesting signed).2
      (.cons (renameNestedAttribute_nesting hsimple) (.nil _))), rfl⟩, ?_⟩
  rw [hpool₃]
  rfl

theorem rename_nesting : nesting.rename nestingMapping = .ok "x" nestingRenamed := by
  obtain ⟨interner, hedits, hsound, hpool⟩ := applyAll_nesting
  obtain ⟨last, hdeclarations, hlast⟩ := renameDeclarations_nesting hsound hpool
  have hname : nesting.name = .ok "a" := className_nesting.2
  simp only [rename, hname, plan_nesting, bind, pure, Except.bind, Except.pure, EStateM.bind,
    editConstants, hedits, hdeclarations, classes_nestingMapping, Desk.classFile, hlast]

theorem rename_exact_nesting :
    nesting.pool.Addressable ∧ nesting.rename nestingMapping = .ok "x" nestingRenamed ∧
      nestingRenamed.name = .ok "x" ∧
      Sheet.BodyRenamed ⟨nestingMapping, nesting.pool, "a"⟩ nestingRenamed.pool nesting
        nestingRenamed := by
  have haddressable : nesting.pool.Addressable := by decide
  obtain ⟨owner, howner, -, hname, hbody, -⟩ := rename_exact haddressable rename_nesting
  obtain rfl : "a" = owner := Except.ok.inj (className_nesting.2.symm.trans howner)
  exact ⟨haddressable, rename_nesting, hname, hbody⟩

/-! ### A class that an array names -/

/-- A class file whose own name is the descriptor of an array. -/
def arrayNamed : ClassFile where
  minorVersion := 0
  majorVersion := 52
  pool := ⟨#[.unusable, .utf8 (Utf8.encode "[La;"), .classRef 1]⟩
  access := ⟨0x21⟩
  thisClass := 2
  superClass := 0
  interfaces := []
  fields := []
  methods := []
  attributes := []

/-- A new name for the class `a`. -/
def elementMapping : SymbolMapping :=
  SymbolMapping.empty.addClass "a" "b"

theorem name_arrayNamed : arrayNamed.name = .ok "[La;" := by
  simp [ClassFile.name, arrayNamed, ConstantPool.className_eq_ok_iff, ConstantPool.text_eq_ok_iff]

theorem renameClass_elementMapping :
    elementMapping.renameClass "[La;" = "[La;" ∧ elementMapping.renameClass "a" = "b" := by
  constructor
  · have hentry : elementMapping.classes["[La;"]? = none := by
      simp [elementMapping, SymbolMapping.addClass, SymbolMapping.empty]
    rw [SymbolMapping.renameClass_of_free hentry (by decide)]
    simp [elementMapping, SymbolMapping.addClass, SymbolMapping.empty, SymbolMapping.relocate]
  · apply SymbolMapping.renameClass_of_entry
    simp [elementMapping, SymbolMapping.addClass, SymbolMapping.empty,
      Std.HashMap.getElem_insertIfNew]

theorem renamedClass_arrayNamed : renamedClass elementMapping "[La;" = "[Lb;" := by
  let element : Descriptor.Tree Descriptor.ClassName := .field (.array (.cls ⟨"a", by decide⟩))
  have hold : "[La;".toList = (element.map Descriptor.ClassName.text).chars := by decide
  have harray : "[La;".toList.head? = some '[' := by decide
  rw [renamedClass, if_pos harray, SymbolMapping.renameDescriptor, Descriptor.rename, hold,
    Descriptor.renameChars_chars]
  simp [element, Descriptor.Tree.map, Descriptor.FieldType.map, Descriptor.Tree.chars,
    Descriptor.FieldType.chars, renameClass_elementMapping]

theorem plan_arrayNamed :
    PoolEdit.plan elementMapping arrayNamed.pool = .ok [.className 2 "[Lb;"] := by
  have hnew : PoolEdit.newClassName elementMapping "[La;" = "[Lb;" :=
    (PoolEdit.newClassName_eq _).trans renamedClass_arrayNamed
  simp [PoolEdit.plan, arrayNamed, ConstantPool.entries, PoolEdit.planEntry, ConstantPool.text,
    ConstantPool.get, bind, Except.bind, pure, Except.pure, Utf8.decode?_encode, hnew]

theorem rename_arrayNamed : ∃ c', arrayNamed.rename elementMapping = .ok "[La;" c' := by
  have haddressable : arrayNamed.pool.Addressable := by decide
  obtain ⟨hsound, hpool⟩ := Interner.sound_ofPool haddressable
  obtain ⟨interner, hedit, -, -⟩ := PoolEdit.apply_className_of_absent hsound 2 1 "[Lb;"
    (by rw [hpool]; rfl) (by rw [hpool]; simp [arrayNamed, Utf8.encode_ne]) (by decide)
    (by rw [hpool]; decide)
  have hedits : PoolEdit.applyAll [.className 2 "[Lb;"] (.ofPool arrayNamed.pool) =
      .ok () interner := estate_bind_of_ok hedit _
  refine ⟨{ arrayNamed with pool := interner.pool }, ?_⟩
  simp only [rename, name_arrayNamed, plan_arrayNamed, bind, pure, Except.bind, Except.pure,
    EStateM.bind, editConstants, hedits, renameClass_elementMapping]
  rfl

/-- The name that renaming gives need not be the one that the class has afterwards. -/
theorem not_name_rename :
    ¬ ∀ (m : SymbolMapping) (c c' : ClassFile) (newName owner : String),
      c.pool.Addressable → c.name = .ok owner → c.rename m = .ok newName c' →
        newName = m.renameClass owner ∧ c'.name = .ok newName := by
  intro h
  have haddressable : arrayNamed.pool.Addressable := by decide
  obtain ⟨c', hrename⟩ := rename_arrayNamed
  have hname := (h _ _ _ _ _ haddressable name_arrayNamed hrename).2
  rw [name_rename haddressable hrename name_arrayNamed, renamedClass_arrayNamed] at hname
  exact absurd (Except.ok.inj hname) (by decide)

end ClassFile

end JarRefit
