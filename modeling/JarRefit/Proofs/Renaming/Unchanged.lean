import JarRefit.Proofs.Naming.Accepting
import JarRefit.Proofs.Naming.Descriptor
import JarRefit.Proofs.Renaming.Idle
import JarRefit.Proofs.Renaming.References

/-!
# Mappings that rename nothing of a class

A mapping that gives no new name to any symbol of a class leaves the constants, the members and the
signatures of the class as they are. The records of nested classes stay as well exactly if each of
them already has the simple name in which the name of its class ends.

## Main definitions

* `ClassFile.AsksFor`, `ClassFile.AsksForMember`: the symbols whose new names renaming looks up.
* `SymbolMapping.Spares`: a mapping renames none of them.
* `ClassFile.Relabelled`: what is left to renaming when the mapping spares the class.
-/
namespace JarRefit

open ClassFile Naming Renaming

theorem Renaming.PoolEdit.filterMap_id_eq_nil {m : SymbolMapping} {pool : ConstantPool}
    {entries : List (UInt16 × Constant)} {edits : List (Option PoolEdit)}
    (hnone : ∀ p ∈ entries, ∀ edit?, planEntry m pool p = .ok edit? → edit? = none)
    (hplan : entries.mapM (planEntry m pool) = .ok edits) : edits.filterMap id = [] := by
  refine List.filterMap_eq_nil_iff.2 fun edit? hmem => ?_
  obtain ⟨p, hp, hedit⟩ := exists_mem_of_mapM_eq_ok hplan hmem
  exact hnone p hp edit? hedit

/-! ## Symbols of a class -/

/-- Whether the constant refers to a member, with its class and its name-and-type. -/
def ClassFile.Constant.memberReference? : Constant → Option (MemberKind × UInt16 × UInt16)
  | .fieldRef cls nt => some (.field, cls, nt)
  | .methodRef cls nt | .interfaceMethodRef cls nt => some (.method, cls, nt)
  | _ => none

/-- The name-and-type of a constant that has one. -/
def ClassFile.Constant.nameAndType? : Constant → Option UInt16
  | .fieldRef _ nt | .methodRef _ nt | .interfaceMethodRef _ nt => some nt
  | .dynamic _ nt | .invokeDynamic _ nt => some nt
  | _ => none

namespace ClassFile

variable (c : ClassFile)

/-- The text describes an array, a method type, what a constant names or a declared member. -/
inductive HasDescriptor : String → Prop
  | array {i : Nat} {n : UInt16} {name : String} : c.pool.slots[i]? = some (.classRef n) →
      c.pool.text n = .ok name → PoolEdit.isArrayName name = true → HasDescriptor name
  | methodType {i : Nat} {d : UInt16} {descriptor : String} :
      c.pool.slots[i]? = some (.methodType d) → c.pool.text d = .ok descriptor →
      HasDescriptor descriptor
  | constant {i : Nat} {k : Constant} {nt : UInt16} {name descriptor : String} :
      c.pool.slots[i]? = some k → k.nameAndType? = some nt →
      c.pool.nameAndType nt = .ok (name, descriptor) → HasDescriptor descriptor
  | member {kind : MemberKind} {d : Member} {descriptor : String} : d ∈ c.members kind →
      c.pool.text d.descriptor = .ok descriptor → HasDescriptor descriptor

/-- The text is the generic signature of the class or of a member. -/
inductive HasSignature : String → Prop
  | cls {a : Attribute} {signature : String} : a ∈ c.attributes →
      HoldsSignature c.pool a signature → HasSignature signature
  | member {kind : MemberKind} {d : Member} {a : Attribute} {signature : String} :
      d ∈ c.members kind → a ∈ d.attributes → HoldsSignature c.pool a signature →
      HasSignature signature

/-- The class has a record of a nested class. -/
def HasNested (r : NestedRecord) : Prop :=
  ∃ a ∈ c.attributes, ListsNested c.pool a r

/-- The names of classes whose new names renaming the class looks up. -/
inductive AsksFor : String → Prop
  | own {cls : String} : c.name = .ok cls → AsksFor cls
  | constant {i : Nat} {n : UInt16} {cls : String} : c.pool.slots[i]? = some (.classRef n) →
      c.pool.text n = .ok cls → PoolEdit.isArrayName cls = false → AsksFor cls
  | descriptor {descriptor cls : String} : c.HasDescriptor descriptor →
      cls ∈ Descriptor.names descriptor.toList → AsksFor cls
  | signature {signature cls : String} {s : Signature} : c.HasSignature signature →
      Signature.parse? signature.toList = some s → cls ∈ s.names → AsksFor cls
  | nested {r : NestedRecord} {cls : String} : c.HasNested r → r.Counts →
      c.pool.className r.inner = .ok cls → AsksFor cls

/-- The members, by kind, owner, name and descriptor, whose new names renaming the class looks up:
those it refers to through a class and those it declares. -/
inductive AsksForMember : MemberKind → String → String → String → Prop
  | reference {i : Nat} {k : Constant} {kind : MemberKind} {cls nt : UInt16}
      {owner name descriptor : String} : c.pool.slots[i]? = some k →
      k.memberReference? = some (kind, cls, nt) → c.pool.className cls = .ok owner →
      PoolEdit.isArrayName owner = false → c.pool.nameAndType nt = .ok (name, descriptor) →
      AsksForMember kind owner name descriptor
  | declared {kind : MemberKind} {d : Member} {owner name descriptor : String} :
      c.name = .ok owner → d ∈ c.members kind → c.pool.text d.name = .ok name →
      c.pool.text d.descriptor = .ok descriptor → AsksForMember kind owner name descriptor

end ClassFile

namespace Naming.SymbolMapping

/-- The mapping renames no symbol of the class: every class whose new name is looked up keeps its
name, and no member has a new one. -/
structure Spares (m : SymbolMapping) (c : ClassFile) : Prop where
  classes : ∀ cls, c.AsksFor cls → m.renameClass cls = cls
  members : ∀ kind owner name descriptor, c.AsksForMember kind owner name descriptor →
    m.renameReferred? kind owner name descriptor = none

variable {m : SymbolMapping}

theorem renameClass_empty (cls : String) : empty.renameClass cls = cls := by
  fun_induction renameClass empty cls with
  | case1 cls new hnew => simp [empty] at hnew
  | case2 => rfl
  | case3 cls hnone outer inner hcut outerName newOuter hne ih => exact absurd ih hne
  | case4 cls => simp [relocate, empty]

theorem renameClass_empty_injective : Function.Injective empty.renameClass := fun _ _ h => by
  simpa [renameClass_empty] using h

/-- The empty mapping renames nothing of any class. -/
theorem spares_empty (c : ClassFile) : empty.Spares c where
  classes cls _ := renameClass_empty cls
  members kind owner name descriptor _ := by
    cases kind <;> simp [renameReferred?, renameField?, renameMethod?, findInHierarchy, empty,
      fieldEntry?, methodEntry?, Hierarchy.find?_eq_or, Hierarchy.parents, Hierarchy.parents?]

/-- A declaration follows at most the entries that references follow. -/
theorem renameDeclared?_eq_none {kind : MemberKind} {owner name descriptor : String}
    {access : Access.Flags} (h : m.renameReferred? kind owner name descriptor = none) :
    m.renameDeclared? kind owner name descriptor access = none := by
  cases haccess : isInheritable access with
  | true => rw [renameDeclared?_of_isInheritable haccess, h]
  | false =>
    cases hown : m.ownName? kind owner name descriptor with
    | none => exact renameDeclared?_of_not_isInheritable haccess hown
    | some new => rw [renameDeclared?_of_ownName? hown, h]

namespace Spares

variable {c : ClassFile}

theorem renameDescriptor (h : m.Spares c) {descriptor : String}
    (hdescriptor : c.HasDescriptor descriptor) : m.renameDescriptor descriptor = descriptor :=
  Descriptor.rename_eq_self fun cls hcls => h.classes cls (.descriptor hdescriptor hcls)

theorem renameSignature? (h : m.Spares c) {signature new : String}
    (hsignature : c.HasSignature signature) (hnew : m.renameSignature? signature = some new) :
    new = signature :=
  Signature.rename?_eq_some_self
    (fun _ hs cls hcls => h.classes cls (.signature hsignature hs hcls)) hnew

theorem planReference (h : m.Spares c) (kind : MemberKind) {i : UInt16} {j : Nat} {k : Constant}
    {cls nt : UInt16} {edit? : Option PoolEdit} (hk : c.pool.slots[j]? = some k)
    (href : k.memberReference? = some (kind, cls, nt)) (hnt : k.nameAndType? = some nt)
    (hplan : PoolEdit.planReference m c.pool (kind = .field) i cls nt = .ok edit?) :
    edit? = none := by
  obtain ⟨owner, howner, hplan⟩ := except_bind_eq_ok_iff.1 hplan
  obtain ⟨⟨name, descriptor⟩, hresolved, hplan⟩ := except_bind_eq_ok_iff.1 hplan
  have hname : PoolEdit.newMemberName? m (kind = .field) owner name descriptor = none := by
    unfold PoolEdit.newMemberName?
    split
    · rfl
    · next harray =>
      have hnone := h.members _ _ _ _ (.reference hk href howner (by simpa using harray) hresolved)
      cases kind <;> exact hnone
  dsimp only at hplan
  rw [hname, h.renameDescriptor (.constant hk hnt hresolved), if_neg (by simp)] at hplan
  cases hplan
  rfl

theorem planDynamic (h : m.Spares c) {i : UInt16} {j : Nat} {k : Constant} {nt : UInt16}
    {edit? : Option PoolEdit} (hk : c.pool.slots[j]? = some k) (hnt : k.nameAndType? = some nt)
    (hplan : PoolEdit.planDynamic m c.pool i nt = .ok edit?) : edit? = none := by
  obtain ⟨⟨name, descriptor⟩, hresolved, hplan⟩ := except_bind_eq_ok_iff.1 hplan
  dsimp only at hplan
  rw [h.renameDescriptor (.constant hk hnt hresolved), if_pos rfl] at hplan
  cases hplan
  rfl

/-- No constant is edited. -/
theorem planEntry (h : m.Spares c) {p : UInt16 × Constant} {j : Nat} {edit? : Option PoolEdit}
    (hp : c.pool.slots[j]? = some p.2) (hplan : PoolEdit.planEntry m c.pool p = .ok edit?) :
    edit? = none := by
  obtain ⟨i, k⟩ := p
  cases k with
  | classRef n =>
    obtain ⟨name, hname, hplan⟩ := except_bind_eq_ok_iff.1 hplan
    have hsame : PoolEdit.newClassName m name = name := by
      unfold PoolEdit.newClassName
      split
      · exact h.renameDescriptor (.array hp hname ‹_›)
      · next harray => exact h.classes name (.constant hp hname (by simpa using harray))
    dsimp only at hplan
    rw [hsame, if_pos rfl] at hplan
    cases hplan
    rfl
  | methodType d =>
    obtain ⟨descriptor, hdescriptor, hplan⟩ := except_bind_eq_ok_iff.1 hplan
    dsimp only at hplan
    rw [h.renameDescriptor (.methodType hp hdescriptor), if_pos rfl] at hplan
    cases hplan
    rfl
  | fieldRef owner nt => exact h.planReference .field hp rfl rfl hplan
  | methodRef owner nt | interfaceMethodRef owner nt =>
    exact h.planReference .method hp rfl rfl hplan
  | dynamic bootstrap nt | invokeDynamic bootstrap nt => exact h.planDynamic hp rfl hplan
  | _ =>
    cases hplan
    rfl

theorem edits_eq_nil (h : m.Spares c) (hc : c.pool.Addressable) {edits : List (Option PoolEdit)}
    (hplan : c.pool.entries.mapM (PoolEdit.planEntry m c.pool) = .ok edits) :
    edits.filterMap id = [] :=
  PoolEdit.filterMap_id_eq_nil (fun _ hp _ => h.planEntry (hc.getElem?_of_mem_entries hp)) hplan

theorem renameMember_idle (h : m.Spares c) {owner : String} (howner : c.name = .ok owner)
    (kind : MemberKind) {d : Member} (hd : d ∈ c.members kind) (interner : Interner) :
    (Sheet.renameMember ⟨m, c.pool, owner⟩ (m.renameDeclared? kind owner)).Idle ⟨interner, d⟩ :=
  Sheet.renameMember_idle
    (fun _ _ hname hdescriptor => ⟨renameDeclared?_eq_none
      (h.members _ _ _ _ (.declared howner hd hname hdescriptor)),
      h.renameDescriptor (.member hd hdescriptor)⟩)
    fun _ ha _ _ hsignature => h.renameSignature? (.member hd ha hsignature)

theorem renameSignature_idle (h : m.Spares c) {owner : String} {a : Attribute}
    (ha : a ∈ c.attributes) (interner : Interner) :
    (Sheet.renameSignature ⟨m, c.pool, owner⟩).Idle ⟨interner, a⟩ :=
  Sheet.renameSignature_idle fun _ _ hsignature => h.renameSignature? (.cls ha hsignature)

theorem renameNested_idle (h : m.Spares c) {owner : String} {r : NestedRecord}
    (hr : c.HasNested r) (hnamed : SimplyNamed c.pool r) (interner : Interner) :
    (Sheet.renameNested ⟨m, c.pool, owner⟩).Idle ⟨interner, r⟩ :=
  Sheet.renameNested_idle (fun hcounts cls hcls => h.classes cls (.nested hr hcounts hcls)) hnamed

/-- The members and the signatures stay, and what is left to do is in the records of nested
classes. -/
theorem renameDeclarations (h : m.Spares c) {owner : String} (howner : c.name = .ok owner)
    {interner : Interner} {desk : Desk ClassFile}
    (hrun : Sheet.renameDeclarations ⟨m, c.pool, owner⟩ ⟨interner, c⟩ = .ok () desk) :
    ∃ attributes, Work.each (Sheet.renameNestedAttribute ⟨m, c.pool, owner⟩)
        ⟨interner, c.attributes⟩ = .ok () ⟨desk.interner, attributes⟩ ∧
      desk.item = { c with attributes } := by
  obtain ⟨fielded, methoded, signed, nested, hfields, hmethods, hsigned, hnested, rfl⟩ :=
    Sheet.renameDeclarations_eq_ok_iff.1 hrun
  obtain rfl := Work.Idle.each interner c.fields
    (fun _ hd => h.renameMember_idle howner .field hd interner) hfields
  obtain rfl := Work.Idle.each interner c.methods
    (fun _ hd => h.renameMember_idle howner .method hd interner) hmethods
  obtain rfl := Work.Idle.each interner c.attributes
    (fun _ ha => h.renameSignature_idle ha interner) hsigned
  exact ⟨nested.item, hnested, rfl⟩

/-- The records of attributes that stay have the simple names in which their classes end. -/
theorem simplyNamed (h : m.Spares c) {owner : String}
    (hrenamed : List.Forall₂ (Sheet.NestedRenamed ⟨m, c.pool, owner⟩ c.pool) c.attributes
      c.attributes) {r : NestedRecord} (hr : c.HasNested r) : SimplyNamed c.pool r := by
  obtain ⟨a, ha, hname, records, rest, hpayload, hmem⟩ := hr
  obtain ⟨records', hinfo, hrecords⟩ :=
    (List.forall₂_same.1 hrenamed a ha).records records rest hname hpayload
  obtain ⟨hfits, hinfo'⟩ := NestedRecord.payload?_eq_some_iff.1 hpayload
  obtain ⟨rfl, -⟩ := NestedRecord.encodePayload_inj hrecords.length_eq hfits
    (hinfo'.symm.trans hinfo)
  intro hcounts cls simple hcls hsimple
  obtain ⟨old, cls', -, hcls', hnew⟩ := (List.forall₂_same.1 hrecords r hmem).resolved hcounts
  cases hcls.symm.trans hcls'
  have hkept := h.classes cls (.nested ⟨a, ha, hname, records, rest, hpayload, hmem⟩ hcounts hcls)
  rwa [hkept, hsimple, Option.getD_some] at hnew

end Spares

end Naming.SymbolMapping

namespace ClassFile

variable {m : SymbolMapping} {c c' : ClassFile} {newName : String}

/-! ### A class nested in a method -/

/-- The second class named `b` in the methods of `a`, with a record of itself. -/
def localClass : ClassFile where
  minorVersion := 0
  majorVersion := 52
  pool := ⟨#[.unusable, .utf8 (Utf8.encode "a$1b"), .classRef 1, .utf8 (Utf8.encode "b"),
    .utf8 (Utf8.encode "InnerClasses")]⟩
  access := ⟨0x21⟩
  thisClass := 2
  superClass := 0
  interfaces := []
  fields := []
  methods := []
  attributes := [⟨4, NestedRecord.encodePayload [⟨2, 0, 3, 0⟩] []⟩]

/-- The class with another simple name in its record. -/
def localClassRenamed : ClassFile :=
  { localClass with
    pool := ⟨#[.unusable, .utf8 (Utf8.encode "a$1b"), .classRef 1, .utf8 (Utf8.encode "b"),
      .utf8 (Utf8.encode "InnerClasses"), .utf8 (Utf8.encode "1b")]⟩
    attributes := [⟨4, NestedRecord.encodePayload [⟨2, 0, 5, 0⟩] []⟩] }

theorem name_localClass : localClass.name = .ok "a$1b" := by
  simp [ClassFile.name, localClass, ConstantPool.className_eq_ok_iff, ConstantPool.text_eq_ok_iff]

theorem plan_localClass : PoolEdit.plan .empty localClass.pool = .ok [] := by
  have hkept : PoolEdit.newClassName .empty "a$1b" = "a$1b" := by
    simp [PoolEdit.newClassName, PoolEdit.isArrayName, SymbolMapping.renameClass_empty]
  simp [PoolEdit.plan, localClass, ConstantPool.entries, PoolEdit.planEntry, ConstantPool.text,
    ConstantPool.get, bind, Except.bind, pure, Except.pure, Utf8.decode?_encode, hkept]

theorem text_localClass : localClass.pool.text 3 = .ok "b" ∧
    localClass.pool.text 4 = .ok "InnerClasses" := by
  simp [localClass, ConstantPool.text_eq_ok_iff]

theorem intern_localClass : ∃ interner, Interner.text "1b" (.ofPool localClass.pool) =
    .ok 5 interner ∧ interner.pool = localClassRenamed.pool := by
  have haddressable : localClass.pool.Addressable := by decide
  obtain ⟨hsound, hpool⟩ := Interner.sound_ofPool haddressable
  obtain ⟨interner, htext, -, hinterned⟩ := hsound.text_of_absent "1b"
    (by rw [hpool]; simp [localClass, Utf8.encode_ne]) (by decide) (by rw [hpool]; decide)
  rw [hpool] at htext hinterned
  exact ⟨interner, htext, hinterned⟩

theorem renameNested_localClass {interner : Interner}
    (h : Interner.text "1b" (.ofPool localClass.pool) = .ok 5 interner) :
    Sheet.renameNested ⟨.empty, localClass.pool, "a$1b"⟩
      ⟨.ofPool localClass.pool, ⟨2, 0, 3, 0⟩⟩ = .ok () ⟨interner, ⟨2, 0, 5, 0⟩⟩ := by
  have hname : localClass.pool.className 2 = .ok "a$1b" := name_localClass
  have hsimple : simpleName? "a$1b" = some "1b" := by decide
  have hother : Sheet.unlessSame "b" "1b" = some "1b" := by decide
  simp [Sheet.renameNested_eq, Work.item, Work.repoint, Work.text, Work.change, Sheet.resolve,
    text_localClass, hname, SymbolMapping.renameClass_empty, hsimple, hother, h, bind, pure,
    EStateM.bind, EStateM.pure, estate_get_eq, estate_modify_eq]

theorem renameDeclarations_localClass :
    ∃ interner, Sheet.renameDeclarations ⟨.empty, localClass.pool, "a$1b"⟩
        ⟨.ofPool localClass.pool, localClass⟩ =
      .ok () ⟨interner, { localClass with attributes := localClassRenamed.attributes }⟩ ∧
      interner.pool = localClassRenamed.pool := by
  obtain ⟨interner, hintern, hpool⟩ := intern_localClass
  refine ⟨interner, ?_, hpool⟩
  have hpayload : NestedRecord.payload? (NestedRecord.encodePayload [⟨2, 0, 3, 0⟩] []) =
      some ([⟨2, 0, 3, 0⟩], []) := NestedRecord.payload?_eq_some_iff.2 ⟨by decide, rfl⟩
  have hfields : localClass.fields = [] := rfl
  have hmethods : localClass.methods = [] := rfl
  have hattributes : localClass.attributes =
      [⟨4, NestedRecord.encodePayload [⟨2, 0, 3, 0⟩] []⟩] := rfl
  simp [Sheet.renameDeclarations, Sheet.renameSignature, Sheet.renameNestedAttribute, Work.on,
    Work.each, Work.each.go, Work.item, Sheet.resolve, text_localClass, hfields, hmethods,
    hattributes, hpayload, renameNested_localClass hintern, Sheet.signatureName, Sheet.nestedName,
    bind, pure, EStateM.bind, EStateM.pure, estate_get_eq, localClassRenamed]

theorem rename_localClass : localClass.rename .empty = .ok "a$1b" localClassRenamed := by
  obtain ⟨interner, hdeclarations, hpool⟩ := renameDeclarations_localClass
  have hedits : PoolEdit.applyAll [] (.ofPool localClass.pool) =
      .ok () (.ofPool localClass.pool) := rfl
  simp only [rename, name_localClass, plan_localClass, bind, pure, Except.bind, Except.pure,
    EStateM.bind, editConstants, hedits, hdeclarations, SymbolMapping.renameClass_empty,
    Desk.classFile, hpool]
  rfl

/-! ### Nothing to rename -/

/-- Of a class whose name stays, nothing is other than the simple names of nested classes; text
constants can have been added for them. -/
structure Relabelled (m : SymbolMapping) (c : ClassFile) (owner : String) (c' : ClassFile) :
    Prop where
  name : c.name = .ok owner
  frame : c' = { c with pool := c'.pool, attributes := c'.attributes }
  grows : c.pool.Grows c'.pool
  attributes : List.Forall₂ (Sheet.NestedRenamed ⟨m, c.pool, owner⟩ c'.pool) c.attributes
    c'.attributes

/-- A class of which nothing is renamed is relabelled at most, and stays as it is exactly if the
simple name of each nested class is the one in which the name of that class ends. -/
theorem rename_of_spares (hc : c.pool.Addressable) (hm : m.Spares c)
    (h : c.rename m = .ok newName c') :
    Relabelled m c newName c' ∧ (c' = c ↔ ∀ r, c.HasNested r → SimplyNamed c.pool r) := by
  obtain ⟨owner, edits, edited, desk, howner, hnew, hplan, hrun, hdeclarations, rfl⟩ :=
    rename_eq_ok h
  obtain rfl : newName = owner := hnew.trans (hm.classes owner (.own howner))
  rw [hm.edits_eq_nil hc hplan] at hrun
  cases hrun
  obtain ⟨hsound, hpool⟩ := Interner.sound_ofPool hc
  obtain ⟨attributes, hwork, hitem⟩ := hm.renameDeclarations howner hdeclarations
  have hext := Work.Extending.each Sheet.renameNestedAttribute_extending hsound hwork
  have hgrows : c.pool.Grows desk.interner.pool := by
    rw [← hpool]
    exact hext.grows
  have hrenamed : List.Forall₂ (Sheet.NestedRenamed ⟨m, c.pool, newName⟩ desk.interner.pool)
      c.attributes attributes :=
    Sheet.nestedRenamed_of_each hsound (by rw [hpool]; exact .refl _) hwork
  rw [Desk.classFile, hitem]
  refine ⟨⟨howner, rfl, hgrows, hrenamed⟩, fun hsame r hr => ?_, fun hnamed => ?_⟩
  · have hkept : desk.interner.pool = c.pool := congrArg ClassFile.pool hsame
    have hattributes : attributes = c.attributes := congrArg ClassFile.attributes hsame
    rw [hkept, hattributes] at hrenamed
    exact hm.simplyNamed hrenamed hr
  · have hidle := Work.Idle.each (.ofPool c.pool) c.attributes (fun a ha =>
      Sheet.renameNestedAttribute_idle fun r hr =>
        hm.renameNested_idle ⟨a, ha, hr⟩ (hnamed r ⟨a, ha, hr⟩) _) hwork
    simp only [Desk.mk.injEq] at hidle
    rw [hidle.1, hidle.2, hpool]

theorem rename_of_spares_localClass :
    localClass.pool.Addressable ∧ SymbolMapping.empty.Spares localClass ∧
      localClass.rename .empty = .ok "a$1b" localClassRenamed ∧
      Relabelled .empty localClass "a$1b" localClassRenamed ∧
      (localClassRenamed = localClass ↔
        ∀ r, localClass.HasNested r → SimplyNamed localClass.pool r) :=
  ⟨by decide, SymbolMapping.spares_empty _, rename_localClass,
    rename_of_spares (by decide) (SymbolMapping.spares_empty _) rename_localClass⟩

/-- Renaming nothing can change something: the empty mapping gives another simple name to a class
that is nested in a method, and the bytes of the class file are others. -/
theorem rename_localClass_ne :
    SymbolMapping.empty.Spares localClass ∧
      localClass.rename .empty = .ok "a$1b" localClassRenamed ∧ localClassRenamed ≠ localClass ∧
      localClassRenamed.encode ≠ localClass.encode :=
  ⟨SymbolMapping.spares_empty _, rename_localClass, by decide, by decide⟩

end ClassFile

end JarRefit
