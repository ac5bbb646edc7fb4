import Mathlib.Data.List.Forall2
import JarRefit.ClassFile.Widening
import JarRefit.Proofs.Access.Table
import JarRefit.Proofs.Renaming.Declarations

/-!
# Widening a class

Widening changes the flags of a class and of its members and nothing else; of the flags only the
visibility field and the final flag.

## Main definitions

* `Flags.Changed`: flags after a change or without one.
* `Member.symbol`: the symbol that a member is under the names of its class.
* `ClassFile.WidensTo`: the member with what the table has for its symbol.
* `ClassFile.MemberWidened`, `ClassFile.ClassWidened`: what widening makes of a member and of a
  class.
-/
namespace JarRefit

open Access ClassFile

/-! ## Flags -/

namespace Access

variable {f old new : Flags}

/-- A change touches the visibility field and the final flag only. -/
theorem Change.bit_apply (c : Change) {i : Nat} (hi : 3 ≤ i) (hfinal : i ≠ 4) :
    (c.apply f).bit i = f.bit i := by
  rw [Change.apply, FinalToggle.bit_apply_of_ne _ hfinal, Flags.bit_withVisibility,
    if_neg (Nat.not_lt.2 hi)]

/-- The new flags are the old ones after a change, or without one. -/
def Flags.Changed (old new : Flags) : Prop :=
  ∃ change? : Option Change, new = change?.elim old (·.apply old)

namespace Flags.Changed

theorem visibility_le (h : Changed old new) : old.visibility ≤ new.visibility := by
  obtain ⟨_ | c, rfl⟩ := h
  · exact le_rfl
  · simp [Change.visibility_apply]

theorem bit_eq (h : Changed old new) {i : Nat} (hi : 3 ≤ i) (hfinal : i ≠ 4) :
    new.bit i = old.bit i := by
  obtain ⟨_ | c, rfl⟩ := h
  · rfl
  · exact c.bit_apply hi hfinal

theorem remove_changeable (h : Changed old new) :
    new.remove .changeable = old.remove .changeable := by
  obtain ⟨_ | c, rfl⟩ := h
  · rfl
  · exact ((Merged.singleton c).widened old).others

end Flags.Changed

theorem Table.changed_applyTo (table : Table) (s : Symbol) (f : Flags) :
    f.Changed (table.applyTo s f) :=
  ⟨table.mergedChange s.keys, applyTo_eq table s f⟩

end Access

namespace ClassFile

variable {table : Access.Table} {c c' : ClassFile} {owner : String} {pool : ConstantPool}
  {kind : MemberKind} {d d' : Member} {f : Member → Except Fault Member} {ms ms' : List Member}

/-! ## Members -/

/-- The symbol that a member is, under the names that it has in the pool. -/
def Member.symbol (owner : String) (pool : ConstantPool) (d : Member) :
    MemberKind → Except Fault Access.Symbol
  | .field => do return .field owner (← pool.text d.name)
  | .method => do return .method owner (← pool.text d.name) (← pool.text d.descriptor)

/-- The second member is the first one with the flags that the table gives to its symbol. -/
def WidensTo (table : Access.Table) (owner : String) (pool : ConstantPool) (kind : MemberKind)
    (d d' : Member) : Prop :=
  ∃ s, d.symbol owner pool kind = .ok s ∧ d' = { d with access := table.applyTo s d.access }

theorem widenField_eq_ok_iff :
    widenField table owner pool d = .ok d' ↔ WidensTo table owner pool .field d d' := by
  simp only [widenField, WidensTo, Member.symbol, except_bind_eq_ok_iff, except_pure_eq_ok_iff]
  constructor
  · rintro ⟨name, hname, rfl⟩
    exact ⟨_, ⟨name, hname, rfl⟩, rfl⟩
  · rintro ⟨_, ⟨name, hname, rfl⟩, rfl⟩
    exact ⟨name, hname, rfl⟩

theorem widenMethod_eq_ok_iff :
    widenMethod table owner pool d = .ok d' ↔ WidensTo table owner pool .method d d' := by
  simp only [widenMethod, WidensTo, Member.symbol, except_bind_eq_ok_iff, except_pure_eq_ok_iff]
  constructor
  · rintro ⟨name, hname, descriptor, hdescriptor, rfl⟩
    exact ⟨_, ⟨name, hname, descriptor, hdescriptor, rfl⟩, rfl⟩
  · rintro ⟨_, ⟨name, hname, descriptor, hdescriptor, rfl⟩, rfl⟩
    exact ⟨name, hname, descriptor, hdescriptor, rfl⟩

/-- What widening makes of a member. -/
structure MemberWidened (d d' : Member) : Prop where
  changed : d.access.Changed d'.access
  rest : d' = { d with access := d'.access }

theorem WidensTo.memberWidened (h : WidensTo table owner pool kind d d') : MemberWidened d d' := by
  obtain ⟨s, -, rfl⟩ := h
  exact ⟨table.changed_applyTo s d.access, rfl⟩

theorem replaceMembers_eq_none_iff :
    replaceMembers f ms = (ms', none) ↔ List.Forall₂ (fun d d' => f d = .ok d') ms ms' := by
  suffices hgo : ∀ done all, replaceMembers.go f done ms = (all, none) ↔
      ∃ rest, all = done.reverse ++ rest ∧ List.Forall₂ (fun d d' => f d = .ok d') ms rest by
    simp [replaceMembers, hgo]
  induction ms with
  | nil => simp [replaceMembers.go, eq_comm]
  | cons d ms ih =>
    intro done all
    rw [replaceMembers.go]
    cases hd : f d with
    | error e => simp [List.forall₂_cons_left_iff, hd]
    | ok d' => simp [List.forall₂_cons_left_iff, hd, ih]

/-! ## Classes -/

/-- What widening makes of a class. -/
structure ClassWidened (c c' : ClassFile) : Prop where
  changed : c.access.Changed c'.access
  members : ∀ kind, List.Forall₂ MemberWidened (c.members kind) (c'.members kind)
  rest : c' = { c with access := c'.access, fields := c'.fields, methods := c'.methods }

theorem widen_eq_ok_iff : c.widen table = .ok () c' ↔ ∃ owner, c.name = .ok owner ∧
    (∀ kind, List.Forall₂ (WidensTo table owner c.pool kind) (c.members kind) (c'.members kind)) ∧
    c' = { c with
      access := table.applyTo (.cls owner) c.access, fields := c'.fields,
      methods := c'.methods } := by
  have hkinds (owner : String) :
      (∀ kind, List.Forall₂ (WidensTo table owner c.pool kind) (c.members kind)
        (c'.members kind)) ↔
      replaceMembers (widenField table owner c.pool) c.fields = (c'.fields, none) ∧
        replaceMembers (widenMethod table owner c.pool) c.methods = (c'.methods, none) := by
    simp only [replaceMembers_eq_none_iff, widenField_eq_ok_iff, widenMethod_eq_ok_iff]
    exact ⟨fun h => ⟨h .field, h .method⟩, fun h kind => by cases kind; exacts [h.1, h.2]⟩
  simp only [hkinds]
  constructor
  · intro h
    unfold widen at h
    split at h
    · cases h
    · next owner howner =>
      dsimp only at h
      split at h
      · cases h
      · next fields hfields =>
        split at h
        · cases h
        · next methods hmethods =>
          cases h
          exact ⟨owner, howner, ⟨hfields, hmethods⟩, rfl⟩
  · rintro ⟨owner, howner, ⟨hfields, hmethods⟩, hrest⟩
    rw [widen, howner, hrest]
    simp only [hfields, hmethods]
    rfl

theorem classWidened_of_widen (h : c.widen table = .ok () c') : ClassWidened c c' := by
  obtain ⟨owner, -, hmembers, hrest⟩ := widen_eq_ok_iff.1 h
  have haccess : c'.access = table.applyTo (.cls owner) c.access := by rw [hrest]
  refine ⟨?_, fun kind => (hmembers kind).imp fun _ _ => WidensTo.memberWidened, ?_⟩
  · rw [haccess]
    exact table.changed_applyTo _ _
  · rw [haccess]
    exact hrest

/-- A table without changes leaves a class whose members have names and descriptors. -/
theorem widen_empty (hname : c.name = .ok owner)
    (hsymbol : ∀ kind, ∀ d ∈ c.members kind, ∃ s, d.symbol owner c.pool kind = .ok s) :
    c.widen .empty = .ok () c := by
  refine widen_eq_ok_iff.2 ⟨owner, hname, fun kind => List.forall₂_same.2 fun d hd => ?_, ?_⟩
  · obtain ⟨s, hs⟩ := hsymbol kind d hd
    exact ⟨s, hs, by simp⟩
  · simp

end ClassFile

end JarRefit
