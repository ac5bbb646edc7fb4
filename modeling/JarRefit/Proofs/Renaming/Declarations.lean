import JarRefit.Proofs.Renaming.Work
import JarRefit.Renaming.Class

/-!
# Renaming declarations

Declared fields and methods get their new names and descriptors in place; nothing that is renamed
beside the constants changes any of them.

## Main definitions

* `ClassFile.members`, `SymbolMapping.renameDeclared?`: fields and methods by their kind.
* `Sheet.MemberRenamed`, `Sheet.DeclarationsRenamed`: what renaming makes of declared members.
-/
namespace JarRefit

open ClassFile Naming

/-- The members of a kind that a class declares. -/
def ClassFile.members (c : ClassFile) : MemberKind → List Member
  | .field => c.fields
  | .method => c.methods

/-- The new name of a member that a class declares. -/
def Naming.SymbolMapping.renameDeclared? (m : SymbolMapping) (kind : MemberKind)
    (owner name descriptor : String) (access : Access.Flags) : Option String :=
  match kind with
  | .field => m.renameDeclaredField? owner name access
  | .method => m.renameDeclaredMethod? owner name descriptor access

namespace Renaming

namespace Sheet

variable {s : Sheet}

theorem resolve_eq_ok_iff {α β : Type} {value : Except Fault α} {desk desk' : Desk β} {a : α} :
    resolve value desk = .ok a desk' ↔ value = .ok a ∧ desk = desk' := by
  unfold resolve
  cases value <;> simp

/-! ## Declarations leave the constants -/

theorem resolve_extending {α β : Type} (value : Except Fault α) :
    (resolve value : Work β α).Extending := by
  intro desk a desk' hsound h
  obtain ⟨-, rfl⟩ := resolve_eq_ok_iff.1 h
  exact .refl hsound

theorem renameSignature_extending : s.renameSignature.Extending := by
  refine .bind .item fun a => .bind (resolve_extending _) fun name => .ite ?_ (.pure _)
  split
  · refine .bind (resolve_extending _) fun signature => ?_
    split
    · exact .ite (.bind (.text _) fun _ => .change _) (.pure _)
    · exact .pure _
  · exact .pure _

/-- Another text, or nothing when it is the same. -/
def unlessSame (old new : String) : Option String :=
  if new ≠ old then some new else none

@[simp]
theorem unlessSame_getD (old new : String) : (unlessSame old new).getD old = new := by
  unfold unlessSame
  split <;> simp_all

theorem renameMember_eq (newName? : String → String → Access.Flags → Option String) :
    s.renameMember newName? = (do
      let m ← Work.item
      let name ← resolve (s.original.text m.name)
      let descriptor ← resolve (s.original.text m.descriptor)
      Work.repoint (newName? name descriptor m.access) fun index m => { m with name := index }
      Work.repoint (unlessSame descriptor (s.mapping.renameDescriptor descriptor))
        fun index m => { m with descriptor := index }
      Work.on Member.attributes (fun attributes m => { m with attributes })
        (Work.each s.renameSignature)) := by
  unfold renameMember
  congr! 6 with m name descriptor
  unfold Work.repoint unlessSame
  cases newName? name descriptor m.access <;> dsimp only <;> split <;>
    simp only [bind_assoc, pure_bind]

theorem renameMember_extending (newName? : String → String → Access.Flags → Option String) :
    (s.renameMember newName?).Extending := by
  rw [renameMember_eq]
  exact .bind .item fun m => .bind (resolve_extending _) fun name =>
    .bind (resolve_extending _) fun descriptor => .bind (.repoint _ _) fun _ =>
      .bind (.repoint _ _) fun _ => .on (.each renameSignature_extending) _ _

theorem renameNested_extending : s.renameNested.Extending := by
  refine .bind .item fun r => .ite ?_ (.pure _)
  refine .bind (resolve_extending _) fun oldName => .bind (resolve_extending _) fun cls => ?_
  split
  · exact .ite (.bind (.text _) fun _ => .change _) (.pure _)
  · exact .pure _

theorem renameNestedAttribute_extending : s.renameNestedAttribute.Extending := by
  refine .bind .item fun a => .bind (resolve_extending _) fun name => .ite ?_ (.pure _)
  split
  · exact .on (.each renameNested_extending) _ _
  · exact .pure _

/-- Renaming the declarations appends to the constants and changes none. -/
theorem renameDeclarations_extending : s.renameDeclarations.Extending :=
  .bind (.on (.each (renameMember_extending _)) _ _) fun _ =>
    .bind (.on (.each (renameMember_extending _)) _ _) fun _ =>
      .bind (.on (.each renameSignature_extending) _ _) fun _ =>
        .on (.each renameNestedAttribute_extending) _ _

/-! ## Declared members -/

/-- What renaming makes of a declared member, whose new name is given by `newName?`. -/
structure MemberRenamed (s : Sheet) (newName? : String → String → Access.Flags → Option String)
    (new : ConstantPool) (d d' : Member) : Prop where
  access : d'.access = d.access
  resolved : ∃ name descriptor, s.original.text d.name = .ok name ∧
    s.original.text d.descriptor = .ok descriptor ∧
    new.text d'.name = .ok ((newName? name descriptor d.access).getD name) ∧
    new.text d'.descriptor = .ok (s.mapping.renameDescriptor descriptor)

variable {newName? : String → String → Access.Flags → Option String}

theorem MemberRenamed.mono {old new : ConstantPool} {d d' : Member} (hkeeps : old.Keeps new)
    (h : MemberRenamed s newName? old d d') : MemberRenamed s newName? new d d' := by
  obtain ⟨haccess, name, descriptor, hname, hdescriptor, hname', hdescriptor'⟩ := h
  exact ⟨haccess, name, descriptor, hname, hdescriptor, hkeeps.text hname',
    hkeeps.text hdescriptor'⟩

/-- The steps of renaming a member: its name, its descriptor and the signatures in its
attributes. -/
theorem renameMember_eq_ok {desk desk' : Desk Member}
    (h : s.renameMember newName? desk = .ok () desk') :
    ∃ name descriptor named described attributed,
      s.original.text desk.item.name = .ok name ∧
      s.original.text desk.item.descriptor = .ok descriptor ∧
      Work.repoint (newName? name descriptor desk.item.access) (fun i d => { d with name := i })
        desk = .ok () named ∧
      Work.repoint (unlessSame descriptor (s.mapping.renameDescriptor descriptor))
        (fun i d => { d with descriptor := i }) named = .ok () described ∧
      Work.each s.renameSignature ⟨described.interner, described.item.attributes⟩ =
        .ok () attributed ∧
      desk' = ⟨attributed.interner, { described.item with attributes := attributed.item }⟩ := by
  rw [renameMember_eq] at h
  obtain ⟨_, _, hitem, h⟩ := estate_bind_eq_ok_iff.1 h
  cases hitem
  obtain ⟨name, _, hresolve, h⟩ := estate_bind_eq_ok_iff.1 h
  obtain ⟨hname, rfl⟩ := resolve_eq_ok_iff.1 hresolve
  obtain ⟨descriptor, _, hresolve, h⟩ := estate_bind_eq_ok_iff.1 h
  obtain ⟨hdescriptor, rfl⟩ := resolve_eq_ok_iff.1 hresolve
  obtain ⟨_, named, hnamed, h⟩ := estate_bind_eq_ok_iff.1 h
  obtain ⟨_, described, hdescribed, h⟩ := estate_bind_eq_ok_iff.1 h
  obtain ⟨attributed, hattributed, rfl⟩ := Work.on_eq_ok_iff.1 h
  exact ⟨name, descriptor, named, described, attributed, hname, hdescriptor, hnamed, hdescribed,
    hattributed, rfl⟩

theorem memberRenamed_of_renameMember {desk desk' : Desk Member} (hsound : desk.interner.Sound)
    (hkeeps : s.original.Keeps desk.interner.pool)
    (h : s.renameMember newName? desk = .ok () desk') :
    MemberRenamed s newName? desk'.interner.pool desk.item desk'.item := by
  obtain ⟨name, descriptor, named, described, attributed, hname, hdescriptor, hnamed, hdescribed,
    hattributed, rfl⟩ := renameMember_eq_ok h
  have hext := Work.Extending.repoint _ _ hsound hnamed
  have hext' := Work.Extending.repoint _ _ hext.sound hdescribed
  have hlast := (Work.each_eq_ok_iff.1 hattributed).extends renameSignature_extending hext'.sound
  obtain ⟨n, hn, htext⟩ := Work.repoint_eq_ok hsound (i := desk.item.name) rfl
    (hkeeps.text hname) hnamed
  obtain ⟨t, ht, htext'⟩ := Work.repoint_eq_ok hext.sound (i := desk.item.descriptor)
    (by rw [hn]) ((hkeeps.trans hext.grows.keeps).text hdescriptor) hdescribed
  rw [hn] at ht
  rw [ht]
  refine ⟨rfl, name, descriptor, hname, hdescriptor, ?_, ?_⟩
  · exact (hext'.grows.trans hlast.grows).keeps.text htext
  · simpa using hlast.grows.keeps.text htext'

/-- What renaming makes of the declarations of a class. -/
def DeclarationsRenamed (s : Sheet) (new : ConstantPool) (c c' : ClassFile) : Prop :=
  ∀ kind, List.Forall₂ (MemberRenamed s (s.mapping.renameDeclared? kind s.owner) new)
    (c.members kind) (c'.members kind)

/-- The steps of renaming the declarations: fields, methods, signatures and nested classes. -/
theorem renameDeclarations_eq_ok_iff {desk desk' : Desk ClassFile} :
    s.renameDeclarations desk = .ok () desk' ↔
      ∃ fielded methoded signed nested,
        Work.each s.renameField ⟨desk.interner, desk.item.fields⟩ = .ok () fielded ∧
        Work.each s.renameMethod ⟨fielded.interner, desk.item.methods⟩ = .ok () methoded ∧
        Work.each s.renameSignature ⟨methoded.interner, desk.item.attributes⟩ = .ok () signed ∧
        Work.each s.renameNestedAttribute signed = .ok () nested ∧
        desk' = ⟨nested.interner, { desk.item with
          fields := fielded.item, methods := methoded.item, attributes := nested.item }⟩ := by
  constructor
  · intro h
    obtain ⟨_, _, hfielded, h⟩ := estate_bind_eq_ok_iff.1 h
    obtain ⟨fielded, hfields, rfl⟩ := Work.on_eq_ok_iff.1 hfielded
    obtain ⟨_, _, hmethoded, h⟩ := estate_bind_eq_ok_iff.1 h
    obtain ⟨methoded, hmethods, rfl⟩ := Work.on_eq_ok_iff.1 hmethoded
    obtain ⟨_, _, hsigned, h⟩ := estate_bind_eq_ok_iff.1 h
    obtain ⟨signed, hsignatures, rfl⟩ := Work.on_eq_ok_iff.1 hsigned
    obtain ⟨nested, hnested, rfl⟩ := Work.on_eq_ok_iff.1 h
    exact ⟨fielded, methoded, signed, nested, hfields, hmethods, hsignatures, hnested, rfl⟩
  · rintro ⟨fielded, methoded, signed, nested, hfields, hmethods, hsigned, hnested, rfl⟩
    refine estate_bind_eq_ok_iff.2 ⟨(), _, Work.on_eq_ok_iff.2 ⟨fielded, hfields, rfl⟩, ?_⟩
    refine estate_bind_eq_ok_iff.2 ⟨(), _, Work.on_eq_ok_iff.2 ⟨methoded, hmethods, rfl⟩, ?_⟩
    refine estate_bind_eq_ok_iff.2 ⟨(), _, Work.on_eq_ok_iff.2 ⟨signed, hsigned, rfl⟩, ?_⟩
    exact Work.on_eq_ok_iff.2 ⟨nested, hnested, rfl⟩

/-- The member in the place of a declared one has the names that the mapping gives to it. -/
theorem DeclarationsRenamed.member {new : ConstantPool} {c c' : ClassFile}
    (h : DeclarationsRenamed s new c c') {kind : MemberKind} {i : Nat} {d : Member}
    (hd : (c.members kind)[i]? = some d) {name descriptor : String}
    (hname : s.original.text d.name = .ok name)
    (hdescriptor : s.original.text d.descriptor = .ok descriptor) :
    ∃ d', (c'.members kind)[i]? = some d' ∧ d'.access = d.access ∧
      new.text d'.name =
        .ok ((s.mapping.renameDeclared? kind s.owner name descriptor d.access).getD name) ∧
      new.text d'.descriptor = .ok (s.mapping.renameDescriptor descriptor) := by
  obtain ⟨d', hd', haccess, _, _, hname', hdescriptor', hresolved⟩ :=
    exists_getElem?_of_forall₂ (h kind) hd
  cases hname.symm.trans hname'
  cases hdescriptor.symm.trans hdescriptor'
  exact ⟨d', hd', haccess, hresolved⟩

end Sheet

end Renaming

end JarRefit
