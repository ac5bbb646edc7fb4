import JarRefit.Proofs.Renaming.NestedRecords

/-!
# Work that leaves its desk

Renaming does nothing to members, signatures and records whose new names are the old ones.

## Main definitions

* `Work.Idle`: work that leaves its desk as it is.
* `HoldsSignature`, `ListsNested`: what attributes hold.
* `SimplyNamed`: a record has the simple name in which the name of its class ends.
-/
namespace JarRefit.Renaming

open ClassFile

/-! ## Idle work -/

namespace Work

variable {α β γ δ : Type}

/-- Work that leaves the desk as it is, unless it fails. -/
def Idle (work : Work α γ) (desk : Desk α) : Prop :=
  ∀ ⦃c : γ⦄ ⦃desk' : Desk α⦄, work desk = .ok c desk' → desk' = desk

namespace Idle

variable {desk : Desk α}

theorem pure (c : γ) : Idle (Pure.pure c : Work α γ) desk :=
  fun _ _ h => (estate_pure_eq_ok_iff.1 h).2.symm

theorem bind {work : Work α γ} {next : γ → Work α δ} (h : work.Idle desk)
    (hnext : ∀ c, work desk = .ok c desk → (next c).Idle desk) : (work >>= next).Idle desk := by
  intro d desk' hrun
  obtain ⟨c, middle, hwork, hlater⟩ := estate_bind_eq_ok_iff.1 hrun
  cases h hwork
  exact hnext c hwork hlater

theorem item : (Work.item : Work α α).Idle desk := by
  intro _ _ h
  cases h
  rfl

theorem item_bind {next : α → Work α δ} (h : (next desk.item).Idle desk) :
    (Work.item >>= next).Idle desk :=
  .bind .item fun c hc => by cases hc; exact h

theorem resolve_bind {value : Except Fault γ} {next : γ → Work α δ}
    (h : ∀ c, value = .ok c → (next c).Idle desk) : (Sheet.resolve value >>= next).Idle desk :=
  .bind (fun _ _ hresolve => (Sheet.resolve_eq_ok_iff.1 hresolve).2.symm) fun c hresolve =>
    h c (Sheet.resolve_eq_ok_iff.1 hresolve).1

theorem on {part : β → α} {replace : α → β → β} {work : Work α γ} (interner : Interner) (b : β)
    (h : work.Idle ⟨interner, part b⟩) (hreplace : replace (part b) b = b) :
    (Work.on part replace work).Idle ⟨interner, b⟩ := by
  intro c desk' hrun
  obtain ⟨d, hwork, rfl⟩ := on_eq_ok_iff.1 hrun
  obtain rfl := h hwork
  rw [hreplace]

theorem each {work : Work α Unit} (interner : Interner) (xs : List α)
    (h : ∀ x ∈ xs, work.Idle ⟨interner, x⟩) : (Work.each work).Idle ⟨interner, xs⟩ := by
  rintro _ ⟨interner', ys⟩ hrun
  have hchain := each_eq_ok_iff.1 hrun
  dsimp only at hchain
  clear hrun
  induction hchain with
  | nil => rfl
  | cons hx _ ih =>
    rw [List.forall_mem_cons] at h
    obtain rfl := h.1 hx
    cases ih h.2
    rfl

end Idle

end Work

/-! ## Attributes and members that stay -/

/-- The attribute holds a generic signature. -/
def HoldsSignature (pool : ConstantPool) (a : Attribute) (signature : String) : Prop :=
  pool.text a.name = .ok Sheet.signatureName ∧ ∃ high low, a.info = [high, low] ∧
    pool.text ((high.toUInt16 <<< 8) ||| low.toUInt16) = .ok signature

/-- The attribute lists a nested class. -/
def ListsNested (pool : ConstantPool) (a : Attribute) (r : NestedRecord) : Prop :=
  pool.text a.name = .ok Sheet.nestedName ∧
    ∃ records rest, NestedRecord.payload? a.info = some (records, rest) ∧ r ∈ records

/-- The simple name of the record, if it counts, is the one in which the name of its class ends. -/
def SimplyNamed (pool : ConstantPool) (r : NestedRecord) : Prop :=
  r.Counts → ∀ cls simple, pool.className r.inner = .ok cls → simpleName? cls = some simple →
    pool.text r.name = .ok simple

namespace Sheet

variable {s : Sheet} {interner : Interner}

theorem unlessSame_self (text : String) : unlessSame text text = none := by
  simp [unlessSame]

theorem renameSignature_idle {a : Attribute}
    (h : ∀ signature new, HoldsSignature s.original a signature →
      s.mapping.renameSignature? signature = some new → new = signature) :
    s.renameSignature.Idle ⟨interner, a⟩ := by
  refine .item_bind (.resolve_bind fun name hname => ?_)
  split
  · subst name
    split
    · next high low hinfo =>
      refine .resolve_bind fun signature hsignature => ?_
      split
      · next new hnew =>
        rw [if_neg (not_not.2 (h signature new ⟨hname, high, low, hinfo, hsignature⟩ hnew))]
        exact .pure _
      · exact .pure _
    · exact .pure _
  · exact .pure _

theorem renameMember_idle {newName? : String → String → Access.Flags → Option String} {d : Member}
    (hnames : ∀ name descriptor, s.original.text d.name = .ok name →
      s.original.text d.descriptor = .ok descriptor →
      newName? name descriptor d.access = none ∧ s.mapping.renameDescriptor descriptor = descriptor)
    (hsignatures : ∀ a ∈ d.attributes, ∀ signature new, HoldsSignature s.original a signature →
      s.mapping.renameSignature? signature = some new → new = signature) :
    (s.renameMember newName?).Idle ⟨interner, d⟩ := by
  rw [renameMember_eq]
  refine .item_bind (.resolve_bind fun name hname => .resolve_bind fun descriptor hdescriptor => ?_)
  obtain ⟨hnone, hsame⟩ := hnames name descriptor hname hdescriptor
  rw [hnone, hsame, unlessSame_self]
  exact .bind (.pure _) fun _ _ => .bind (.pure _) fun _ _ =>
    .on _ _ (.each _ _ fun a ha => renameSignature_idle (hsignatures a ha)) rfl

theorem renameNested_idle {r : NestedRecord}
    (hcls : r.Counts → ∀ cls, s.original.className r.inner = .ok cls →
      s.mapping.renameClass cls = cls)
    (hr : SimplyNamed s.original r) : s.renameNested.Idle ⟨interner, r⟩ := by
  rw [renameNested_eq]
  refine .item_bind ?_
  split
  · next hcounts =>
    refine .resolve_bind fun old hold => .resolve_bind fun cls hresolved => ?_
    have hnone : (simpleName? (s.mapping.renameClass cls)).bind (unlessSame old) = none := by
      rw [hcls hcounts cls hresolved]
      cases hsimple : simpleName? cls with
      | none => rfl
      | some simple =>
        cases hold.symm.trans (hr hcounts cls simple hresolved hsimple)
        exact unlessSame_self old
    rw [hnone]
    exact .pure _
  · exact .pure _

theorem renameNestedAttribute_idle {a : Attribute}
    (h : ∀ r, ListsNested s.original a r → s.renameNested.Idle ⟨interner, r⟩) :
    s.renameNestedAttribute.Idle ⟨interner, a⟩ := by
  refine .item_bind (.resolve_bind fun name hname => ?_)
  split
  · subst name
    cases hpayload : NestedRecord.payload? a.info with
    | some payload =>
      obtain ⟨records, rest⟩ := payload
      refine .on _ _ (.each _ _ fun r hr => h r ⟨hname, records, rest, hpayload, hr⟩) ?_
      obtain ⟨-, hinfo⟩ := NestedRecord.payload?_eq_some_iff.1 hpayload
      cases a
      simp_all
    | none => exact .pure _
  · exact .pure _

end Sheet

end JarRefit.Renaming
