import JarRefit.Proofs.Renaming.Idle

/-!
# What renaming touches

Renaming a class file changes its constants, the indices of the names and descriptors of its
declared members, the payloads that hold generic signatures, and the simple names in the records of
nested classes. Everything else of it stays, down to the order of attributes.

## Main definitions

* `Sheet.SignatureRenamed`, `Sheet.AttributeRenamed`: what renaming makes of an attribute.
* `Sheet.DeclarationRenamed`: what it makes of a declared member with its attributes.
* `Sheet.BodyRenamed`: what it makes of everything behind the constants.
-/
namespace JarRefit

open ClassFile Naming Renaming

namespace Renaming

/-! ## Signatures -/

theorem HoldsSignature.mono {old new : ConstantPool} {a : Attribute} {signature : String}
    (h : HoldsSignature old a signature) (hkeeps : old.Keeps new) :
    HoldsSignature new a signature := by
  obtain ⟨hname, high, low, hinfo, hsignature⟩ := h
  exact ⟨hkeeps.text hname, high, low, hinfo, hkeeps.text hsignature⟩

theorem HoldsSignature.unique {pool : ConstantPool} {a : Attribute} {signature other : String}
    (h : HoldsSignature pool a signature) (hother : HoldsSignature pool a other) :
    signature = other := by
  obtain ⟨-, high, low, hinfo, hsignature⟩ := h
  obtain ⟨-, _, _, hinfo', hother⟩ := hother
  cases hinfo.symm.trans hinfo'
  exact Except.ok.inj (hsignature.symm.trans hother)

namespace Sheet

variable {s : Sheet} {old new : ConstantPool}

/-- What renaming makes of an attribute that may hold a signature: if it does, and the signature can
be read, it holds the new one, and otherwise it is the same attribute. -/
structure SignatureRenamed (s : Sheet) (new : ConstantPool) (a a' : Attribute) : Prop where
  name : a'.name = a.name
  holds : ∀ signature renamed, HoldsSignature s.original a signature →
    s.mapping.renameSignature? signature = some renamed → HoldsSignature new a' renamed
  others : (∀ signature renamed, HoldsSignature s.original a signature →
    s.mapping.renameSignature? signature ≠ some renamed) → a' = a

namespace SignatureRenamed

variable {a a' : Attribute}

theorem mono (hkeeps : old.Keeps new) (h : SignatureRenamed s old a a') :
    SignatureRenamed s new a a' where
  name := h.name
  holds signature renamed hold hrenamed := (h.holds signature renamed hold hrenamed).mono hkeeps
  others := h.others

theorem refl (h : ∀ signature renamed, HoldsSignature s.original a signature →
    s.mapping.renameSignature? signature ≠ some renamed) : SignatureRenamed s new a a where
  name := rfl
  holds signature renamed hold hrenamed := absurd hrenamed (h signature renamed hold)
  others _ := rfl

/-- An attribute holds one signature, so it is enough to tell what becomes of that. -/
theorem of_holds {signature renamed : String} (hold : HoldsSignature s.original a signature)
    (hrenamed : s.mapping.renameSignature? signature = some renamed) (hname : a'.name = a.name)
    (hnew : HoldsSignature new a' renamed) : SignatureRenamed s new a a' where
  name := hname
  holds signature' renamed' hold' hrenamed' := by
    cases hold.unique hold'
    cases hrenamed.symm.trans hrenamed'
    exact hnew
  others h := absurd hrenamed (h signature renamed hold)

theorem length (h : SignatureRenamed s new a a') : a'.info.length = a.info.length := by
  by_cases hsome : ∃ signature renamed, HoldsSignature s.original a signature ∧
      s.mapping.renameSignature? signature = some renamed
  · obtain ⟨signature, renamed, hold, hrenamed⟩ := hsome
    obtain ⟨-, _, _, hinfo', -⟩ := h.holds signature renamed hold hrenamed
    obtain ⟨-, _, _, hinfo, -⟩ := hold
    rw [hinfo', hinfo]
    rfl
  · rw [h.others fun signature renamed hold hrenamed => hsome ⟨signature, renamed, hold, hrenamed⟩]

end SignatureRenamed

theorem signatureRenamed_of_renameSignature {desk desk' : Desk Attribute}
    (hsound : desk.interner.Sound) (hkeeps : s.original.Keeps desk.interner.pool)
    (h : s.renameSignature desk = .ok () desk') :
    SignatureRenamed s desk'.interner.pool desk.item desk'.item := by
  obtain ⟨_, _, hitem, h⟩ := estate_bind_eq_ok_iff.1 h
  cases hitem
  obtain ⟨name, _, hresolve, h⟩ := estate_bind_eq_ok_iff.1 h
  obtain ⟨hname, rfl⟩ := resolve_eq_ok_iff.1 hresolve
  split at h
  · next hsigned =>
    subst hsigned
    generalize hinfo : desk.item.info = info at h
    split at h
    · next high low =>
      obtain ⟨signature, _, hresolve, h⟩ := estate_bind_eq_ok_iff.1 h
      obtain ⟨hsignature, rfl⟩ := resolve_eq_ok_iff.1 hresolve
      have hold : HoldsSignature s.original desk.item signature :=
        ⟨hname, high, low, hinfo, hsignature⟩
      cases hrenamed : s.mapping.renameSignature? signature with
      | none =>
        rw [hrenamed] at h
        cases h
        refine .refl fun signature' renamed hold' hrenamed' => ?_
        cases hold.unique hold'
        cases hrenamed.symm.trans hrenamed'
      | some renamed =>
        simp only [hrenamed] at h
        split at h
        · obtain ⟨i, _, htext, hchange⟩ := estate_bind_eq_ok_iff.1 h
          obtain ⟨interner, hi, rfl⟩ := Work.text_eq_ok_iff.1 htext
          cases hchange
          obtain ⟨-, hgrows, hi⟩ := hsound.text hi
          refine .of_holds hold hrenamed rfl ⟨(hkeeps.trans hgrows.keeps).text hname, _, _, rfl, ?_⟩
          rwa [join_encodeU16]
        · next hsame =>
          cases h
          refine .of_holds hold hrenamed rfl ?_
          rw [not_not.1 hsame]
          exact hold.mono hkeeps
    · next hlong =>
      cases h
      exact .refl fun _ _ ⟨_, high, low, hshort, _⟩ _ => hlong high low (hinfo.symm.trans hshort)
  · next hsigned =>
    cases h
    exact .refl fun _ _ hold _ => hsigned (Except.ok.inj (hname.symm.trans hold.1))

theorem signaturesRenamed_of_each {desk desk' : Desk (List Attribute)}
    (h : Work.each s.renameSignature desk = .ok () desk') (hsound : desk.interner.Sound)
    (hkeeps : s.original.Keeps desk.interner.pool) :
    List.Forall₂ (SignatureRenamed s desk'.interner.pool) desk.item desk'.item :=
  (Work.each_eq_ok_iff.1 h).forall₂ (R := SignatureRenamed s) SignatureRenamed.mono
    renameSignature_extending (fun _ _ => signatureRenamed_of_renameSignature) hsound hkeeps

/-! ## Attributes of a class -/

theorem NestedRenamed.length {a a' : Attribute} (h : NestedRenamed s new a a') :
    a'.info.length = a.info.length := by
  by_cases hsome : ∃ records rest, s.original.text a.name = .ok nestedName ∧
      NestedRecord.payload? a.info = some (records, rest)
  · obtain ⟨records, rest, hname, hpayload⟩ := hsome
    obtain ⟨records', hinfo', hrecords⟩ := h.records records rest hname hpayload
    obtain ⟨-, hinfo⟩ := NestedRecord.payload?_eq_some_iff.1 hpayload
    rw [hinfo', hinfo, NestedRecord.length_encodePayload, NestedRecord.length_encodePayload,
      hrecords.length_eq]
  · rw [h.others fun records rest hname hpayload => hsome ⟨records, rest, hname, hpayload⟩]

/-- What renaming makes of an attribute of a class: the one that lists nested classes has its
records renamed, and any other one the signature that it holds. -/
structure AttributeRenamed (s : Sheet) (new : ConstantPool) (a a' : Attribute) : Prop where
  name : a'.name = a.name
  length : a'.info.length = a.info.length
  nested : s.original.text a.name = .ok nestedName → NestedRenamed s new a a'
  signed : s.original.text a.name ≠ .ok nestedName → SignatureRenamed s new a a'

/-- No attribute both holds a signature and lists nested classes. -/
theorem attributeRenamed_of_steps {a b a' : Attribute} (hsigned : SignatureRenamed s new a b)
    (hnested : NestedRenamed s new b a') : AttributeRenamed s new a a' where
  name := hnested.name.trans hsigned.name
  length := hnested.length.trans hsigned.length
  nested hname := by
    have hsame : b = a := hsigned.others fun _ _ hold _ => by
      have heq := Except.ok.inj (hname.symm.trans hold.1)
      exact absurd heq (by decide)
    rwa [hsame] at hnested
  signed hname := by
    have hsame : a' = b := hnested.others fun _ _ hname' _ => hname (hsigned.name ▸ hname')
    rwa [hsame]

/-! ## Members -/

variable {newName? : String → String → Access.Flags → Option String}

/-- What renaming makes of a declared member and of its attributes. -/
structure DeclarationRenamed (s : Sheet)
    (newName? : String → String → Access.Flags → Option String) (new : ConstantPool)
    (d d' : Member) : Prop extends MemberRenamed s newName? new d d' where
  attributes : List.Forall₂ (SignatureRenamed s new) d.attributes d'.attributes

theorem DeclarationRenamed.mono {d d' : Member} (hkeeps : old.Keeps new)
    (h : DeclarationRenamed s newName? old d d') : DeclarationRenamed s newName? new d d' :=
  ⟨h.toMemberRenamed.mono hkeeps, h.attributes.imp fun _ _ => .mono hkeeps⟩

theorem declarationRenamed_of_renameMember {desk desk' : Desk Member}
    (hsound : desk.interner.Sound) (hkeeps : s.original.Keeps desk.interner.pool)
    (h : s.renameMember newName? desk = .ok () desk') :
    DeclarationRenamed s newName? desk'.interner.pool desk.item desk'.item := by
  refine ⟨memberRenamed_of_renameMember hsound hkeeps h, ?_⟩
  obtain ⟨name, descriptor, named, described, attributed, -, -, hnamed, hdescribed, hattributed,
    rfl⟩ := renameMember_eq_ok h
  have hext := Work.Extending.repoint _ _ hsound hnamed
  have hext' := hext.trans (Work.Extending.repoint _ _ hext.sound hdescribed)
  have hsame : described.item.attributes = desk.item.attributes :=
    (Work.repoint_keeps (by intros; rfl) hdescribed).trans
      (Work.repoint_keeps (by intros; rfl) hnamed)
  rw [← hsame]
  exact signaturesRenamed_of_each hattributed hext'.sound (hkeeps.trans hext'.grows.keeps)

theorem declarationsRenamed_of_each {desk desk' : Desk (List Member)}
    (h : Work.each (s.renameMember newName?) desk = .ok () desk') (hsound : desk.interner.Sound)
    (hkeeps : s.original.Keeps desk.interner.pool) :
    List.Forall₂ (DeclarationRenamed s newName? desk'.interner.pool) desk.item desk'.item :=
  (Work.each_eq_ok_iff.1 h).forall₂ (R := DeclarationRenamed s newName?) DeclarationRenamed.mono
    (renameMember_extending newName?)
    (fun _ _ hsound hkeeps => declarationRenamed_of_renameMember hsound hkeeps) hsound hkeeps

/-! ## Classes -/

/-- What renaming makes of everything in a class file but its constants. -/
structure BodyRenamed (s : Sheet) (new : ConstantPool) (c c' : ClassFile) : Prop where
  frame : c' = { c with
    pool := c'.pool, fields := c'.fields, methods := c'.methods, attributes := c'.attributes }
  members : ∀ kind, List.Forall₂
    (DeclarationRenamed s (s.mapping.renameDeclared? kind s.owner) new)
    (c.members kind) (c'.members kind)
  attributes : List.Forall₂ (AttributeRenamed s new) c.attributes c'.attributes

theorem BodyRenamed.declarations {c c' : ClassFile} (h : BodyRenamed s new c c') :
    DeclarationsRenamed s new c c' :=
  fun kind => (h.members kind).imp fun _ _ hd => hd.toMemberRenamed

theorem bodyRenamed_of_renameDeclarations {desk desk' : Desk ClassFile}
    (hsound : desk.interner.Sound) (hkeeps : s.original.Keeps desk.interner.pool)
    (h : s.renameDeclarations desk = .ok () desk') :
    BodyRenamed s desk'.interner.pool desk.item desk'.item := by
  obtain ⟨fielded, methoded, signed, nested, hfields, hmethods, hsigned, hnested, rfl⟩ :=
    renameDeclarations_eq_ok_iff.1 h
  have hext := (Work.each_eq_ok_iff.1 hfields).extends (renameMember_extending _) hsound
  have hext' := (Work.each_eq_ok_iff.1 hmethods).extends (renameMember_extending _) hext.sound
  have hext'' := (Work.each_eq_ok_iff.1 hsigned).extends renameSignature_extending hext'.sound
  have hlast := (Work.each_eq_ok_iff.1 hnested).extends renameNestedAttribute_extending hext''.sound
  have hkeeps' := hkeeps.trans hext.grows.keeps
  have hkeeps'' := hkeeps'.trans hext'.grows.keeps
  have hfields := declarationsRenamed_of_each hfields hsound hkeeps
  have hmethods := declarationsRenamed_of_each hmethods hext.sound hkeeps'
  have hsigned := signaturesRenamed_of_each hsigned hext'.sound hkeeps''
  have hnested := nestedRenamed_of_each hext''.sound (hkeeps''.trans hext''.grows.keeps) hnested
  refine ⟨rfl, ?_, ?_⟩
  · rintro (_ | _)
    · exact hfields.imp fun _ _ => .mono (hext'.trans (hext''.trans hlast)).grows.keeps
    · exact hmethods.imp fun _ _ => .mono (hext''.trans hlast).grows.keeps
  · refine forall₂_trans ?_ (hsigned.imp fun _ _ => SignatureRenamed.mono hlast.grows.keeps) hnested
    exact fun _ _ _ => attributeRenamed_of_steps

end Sheet

end Renaming

end JarRefit
