import JarRefit.Proofs.Renaming.Class

/-!
# References to own members

A class can declare a member and refer to it. The declaration of a member that is not inherited
follows the entry of its class alone, a reference follows the ancestors as well: after renaming the
two agree unless the reference finds another name there.

## Main definitions

* `ClassFile.RefersTo`: a constant refers to a declared member.
* `SymbolMapping.Diverges`: a mapping parts a declaration from the references to it.
-/
namespace JarRefit

open Access ClassFile Naming Renaming

namespace Naming.SymbolMapping

variable (m : SymbolMapping) (kind : MemberKind) (owner name descriptor : String) (access : Flags)

/-- The new name of a member that is referred to through a class. -/
def renameReferred? : Option String :=
  match kind with
  | .field => m.renameField? owner name
  | .method => m.renameMethod? owner name descriptor

/-- The entry of the class itself for a member. -/
def ownName? : Option String :=
  match kind with
  | .field => m.fieldEntry? name owner
  | .method => m.methodEntry? name descriptor owner

/-- Whether the mapping gives another name to the declaration of a member than to references to it:
an ancestor of the class has an entry with a new name, but the class has none and the member is not
inherited. References through the name of an array keep their names. -/
def Diverges : Prop :=
  if owner.toList.head? = some '[' then
    ∃ new, m.renameDeclared? kind owner name descriptor access = some new ∧ new ≠ name
  else
    isInheritable access = false ∧ m.ownName? kind owner name descriptor = none ∧
      ∃ new, m.renameReferred? kind owner name descriptor = some new ∧ new ≠ name

variable {m kind owner name descriptor access}

theorem renameDeclared?_of_isInheritable (h : isInheritable access = true) :
    m.renameDeclared? kind owner name descriptor access =
      m.renameReferred? kind owner name descriptor := by
  cases kind <;> simp [renameDeclared?, renameReferred?, renameDeclaredField?,
    renameDeclaredMethod?, h]

theorem renameDeclared?_of_not_isInheritable (h : isInheritable access = false)
    (hown : m.ownName? kind owner name descriptor = none) :
    m.renameDeclared? kind owner name descriptor access = none := by
  cases kind with
  | field => simpa [renameDeclared?, renameDeclaredField?, ownName?, h] using hown
  | method =>
    simp only [renameDeclared?, renameDeclaredMethod?, h, Bool.false_or]
    split
    · simp_all [renameMethod?]
    · exact hown

/-- An entry of the class itself counts for its references and its declaration alike. -/
theorem renameDeclared?_of_ownName? {new : String}
    (hown : m.ownName? kind owner name descriptor = some new) :
    m.renameDeclared? kind owner name descriptor access =
      m.renameReferred? kind owner name descriptor := by
  cases kind with
  | field =>
    have hfind : m.renameField? owner name = some new := by
      simp_all [renameField?, findInHierarchy, Hierarchy.find?_eq_or, ownName?]
    simp_all [renameDeclared?, renameReferred?, renameDeclaredField?, ownName?]
  | method =>
    simp only [renameDeclared?, renameReferred?, renameDeclaredMethod?]
    split
    · rfl
    · next hreserved =>
      have : m.renameMethod? owner name descriptor = some new := by
        simp_all [renameMethod?, findInHierarchy, Hierarchy.find?_eq_or, ownName?]
      simp_all [ownName?]

theorem renamedMember_eq :
    renamedMember m (kind = .field) owner name descriptor =
      if owner.toList.head? = some '[' then name
      else (m.renameReferred? kind owner name descriptor).getD name := by
  cases kind <;> simp [renamedMember, renameReferred?]

/-- A reference gets the name of the declaration exactly if the mapping does not part them. -/
theorem renamedMember_eq_iff_not_diverges :
    renamedMember m (kind = .field) owner name descriptor =
      (m.renameDeclared? kind owner name descriptor access).getD name ↔
      ¬ m.Diverges kind owner name descriptor access := by
  have getD_ne {new? : Option String} : (∃ new, new? = some new ∧ new ≠ name) ↔
      new?.getD name ≠ name := by
    cases new? <;> simp
  rw [renamedMember_eq, Diverges]
  split
  · rw [getD_ne, not_not, eq_comm]
  · cases haccess : isInheritable access with
    | true => simp [renameDeclared?_of_isInheritable haccess]
    | false =>
      cases hown : m.ownName? kind owner name descriptor with
      | some new => simp [renameDeclared?_of_ownName? hown]
      | none =>
        rw [renameDeclared?_of_not_isInheritable haccess hown, getD_ne]
        simp

end Naming.SymbolMapping

namespace ClassFile

/-- A reference to a member of a kind. -/
def Constant.reference : MemberKind → UInt16 → UInt16 → Constant
  | .field => .fieldRef
  | .method => .methodRef

theorem Constant.reference_inj {kind : MemberKind} {cls nt cls' nt' : UInt16} :
    Constant.reference kind cls nt = .reference kind cls' nt' ↔ cls = cls' ∧ nt = nt' := by
  cases kind <;> simp [reference]

/-- The constant in slot `j` refers to a name and a descriptor, and member `i` has both. -/
def RefersTo (c : ClassFile) (kind : MemberKind) (j i : Nat) : Prop :=
  ∃ cls nt d name descriptor, c.pool.slots[j]? = some (.reference kind cls nt) ∧
    c.pool.nameAndType nt = .ok (name, descriptor) ∧ (c.members kind)[i]? = some d ∧
    c.pool.text d.name = .ok name ∧ c.pool.text d.descriptor = .ok descriptor

variable {m : SymbolMapping} {c c' : ClassFile} {newName owner name descriptor : String}
  {kind : MemberKind} {i j : Nat} {d : Member} {cls nt : UInt16}

theorem reference_of_classRenamed (h : ClassRenamed m c newName c')
    (hslot : c.pool.slots[j]? = some (.reference kind cls nt))
    (hcls : c.pool.className cls = .ok owner)
    (hnt : c.pool.nameAndType nt = .ok (name, descriptor)) :
    ∃ nt', c'.pool.slots[j]? = some (.reference kind cls nt') ∧ c'.pool.nameAndType nt' =
      .ok (renamedMember m (kind = .field) owner name descriptor,
        m.renameDescriptor descriptor) := by
  obtain ⟨k', hk', hrenamed⟩ := h.pool.renamed j _ hslot
  cases kind <;>
  · obtain ⟨nt', rfl, _, _, _, hcls', hnt', hresolved⟩ := hrenamed
    cases hcls.symm.trans hcls'
    cases hnt.symm.trans hnt'
    exact ⟨nt', hk', hresolved⟩

/-- After renaming, a reference of a class to its own member still refers to it exactly if the
mapping gives both the same name. -/
theorem refersTo_rename_iff (hc : c.pool.Addressable) (howner : c.name = .ok owner)
    (h : c.rename m = .ok newName c')
    (hd : (c.members kind)[i]? = some d) (hname : c.pool.text d.name = .ok name)
    (hdescriptor : c.pool.text d.descriptor = .ok descriptor)
    (hslot : c.pool.slots[j]? = some (.reference kind cls nt))
    (hcls : c.pool.className cls = .ok owner)
    (hnt : c.pool.nameAndType nt = .ok (name, descriptor)) :
    c'.RefersTo kind j i ↔ ¬ m.Diverges kind owner name descriptor d.access := by
  have hrenamed := classRenamed_of_rename hc h
  obtain ⟨nt', hslot', hnt'⟩ := reference_of_classRenamed hrenamed hslot hcls hnt
  obtain ⟨_, howner', -, hdeclarations⟩ := hrenamed.declarations
  cases howner.symm.trans howner'
  obtain ⟨d', hd', -, hname', hdescriptor'⟩ := hdeclarations.member hd hname hdescriptor
  -- The descriptors always agree, so the names decide.
  rw [← SymbolMapping.renamedMember_eq_iff_not_diverges]
  constructor
  · rintro ⟨_, _, _, _, _, hslot'', hnt'', hd'', hname'', -⟩
    obtain ⟨rfl, rfl⟩ := Constant.reference_inj.1 (Option.some.inj (hslot'.symm.trans hslot''))
    cases hd'.symm.trans hd''
    have hpair := Except.ok.inj (hnt'.symm.trans hnt'')
    exact (congrArg Prod.fst hpair).trans (Except.ok.inj (hname''.symm.trans hname'))
  · intro heq
    rw [← heq] at hname'
    exact ⟨cls, nt', d', _, _, hslot', hnt', hd', hname', hdescriptor'⟩

/-! ### A reference that parts from its declaration -/

theorem text_heir : heir.pool.text 3 = .ok "d" ∧ heir.pool.text 4 = .ok "I" := by
  simp [heir, ConstantPool.text_eq_ok_iff]

theorem className_heir : heir.pool.className 2 = .ok "f" := by
  simp [heir, ConstantPool.className_eq_ok_iff, ConstantPool.text_eq_ok_iff]

theorem nameAndType_heir : heir.pool.nameAndType 5 = .ok ("d", "I") := by
  simp [heir, ConstantPool.nameAndType_eq_ok_iff, ConstantPool.text_eq_ok_iff]

theorem refersTo_heirRenamed_iff :
    heir.pool.Addressable ∧ heir.name = .ok "f" ∧
      heir.rename heirMapping = .ok "f" heirRenamed ∧
      (heirRenamed.RefersTo .field 6 0 ↔ ¬ heirMapping.Diverges .field "f" "d" "I" .privateBit) :=
  ⟨by decide, name_heir, rename_heir,
    refersTo_rename_iff (d := ⟨.privateBit, 3, 4, []⟩) (by decide) name_heir rename_heir rfl
      text_heir.1 text_heir.2 rfl className_heir nameAndType_heir⟩

/-- References and declarations are not renamed alike: the private field of a class keeps its name
where a reference to it takes the new name of a field of the superclass. -/
theorem not_refersTo_rename :
    ¬ ∀ (m : SymbolMapping) (c c' : ClassFile) (newName owner name descriptor : String)
      (kind : MemberKind) (i j : Nat) (d : Member) (cls nt : UInt16),
      c.pool.Addressable → c.name = .ok owner → c.rename m = .ok newName c' →
      (c.members kind)[i]? = some d → c.pool.text d.name = .ok name →
      c.pool.text d.descriptor = .ok descriptor →
      c.pool.slots[j]? = some (.reference kind cls nt) → c.pool.className cls = .ok owner →
      c.pool.nameAndType nt = .ok (name, descriptor) → c'.RefersTo kind j i := by
  intro h
  obtain ⟨cls, nt, d, name, descriptor, hslot, hnt, hd, hname, -⟩ :=
    h heirMapping heir heirRenamed "f" "f" "d" "I" .field 0 6 ⟨.privateBit, 3, 4, []⟩ 2 5
      (by decide)
      name_heir rename_heir rfl text_heir.1 text_heir.2 rfl className_heir nameAndType_heir
  cases hslot
  cases hd
  have hnew : heirRenamed.pool.nameAndType 8 = .ok ("field_1", "I") := by
    simp [heirRenamed, ConstantPool.nameAndType_eq_ok_iff, ConstantPool.text_eq_ok_iff]
  have hold : heirRenamed.pool.text 3 = .ok "d" := by
    simp [heirRenamed, ConstantPool.text_eq_ok_iff]
  cases hnew.symm.trans hnt
  exact absurd (Except.ok.inj (hold.symm.trans hname)) (by decide)

end ClassFile

end JarRefit
