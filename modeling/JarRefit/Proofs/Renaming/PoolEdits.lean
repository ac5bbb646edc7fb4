import JarRefit.Proofs.Renaming.Interning
import JarRefit.Renaming.PoolEdit

/-!
# Editing a constant pool

Carrying out the planned edits renames every constant that refers to symbols and leaves all other
constants as they were, whichever constants share their text.

## Main definitions

* `Renamed`: what a mapping makes of one constant.
* `Progress`: the state of a pool when only some entries are still to be edited.
-/
namespace JarRefit.Renaming

open ClassFile Naming

/-! ## Renamed constants -/

/-- The name of a member that is referred to through `owner`. -/
def renamedMember (m : SymbolMapping) (isField : Bool) (owner name descriptor : String) : String :=
  if owner.toList.head? = some '[' then name
  else if isField then (m.renameField? owner name).getD name
  else (m.renameMethod? owner name descriptor).getD name

/-- The name of a class, or the descriptor of an array, after renaming. -/
def renamedClass (m : SymbolMapping) (name : String) : String :=
  if name.toList.head? = some '[' then m.renameDescriptor name else m.renameClass name

/-- The name-and-type of a reference before and after renaming. -/
def ReferenceRenamed (m : SymbolMapping) (old new : ConstantPool) (isField : Bool)
    (owner nt nt' : UInt16) : Prop :=
  ∃ cls name descriptor, old.className owner = .ok cls ∧
    old.nameAndType nt = .ok (name, descriptor) ∧
    new.nameAndType nt' =
      .ok (renamedMember m isField cls name descriptor, m.renameDescriptor descriptor)

/-- The name-and-type of a constant computed at run time before and after renaming. -/
def DynamicRenamed (m : SymbolMapping) (old new : ConstantPool) (nt nt' : UInt16) : Prop :=
  ∃ name descriptor, old.nameAndType nt = .ok (name, descriptor) ∧
    new.nameAndType nt' = .ok (name, m.renameDescriptor descriptor)

/-- What a mapping makes of a constant of the old pool, as one of the new pool. -/
def Renamed (m : SymbolMapping) (old new : ConstantPool) : Constant → Constant → Prop
  | .classRef n, k => ∃ n' name, k = .classRef n' ∧ old.text n = .ok name ∧
      new.text n' = .ok (renamedClass m name)
  | .fieldRef owner nt, k => ∃ nt', k = .fieldRef owner nt' ∧
      ReferenceRenamed m old new true owner nt nt'
  | .methodRef owner nt, k => ∃ nt', k = .methodRef owner nt' ∧
      ReferenceRenamed m old new false owner nt nt'
  | .interfaceMethodRef owner nt, k => ∃ nt', k = .interfaceMethodRef owner nt' ∧
      ReferenceRenamed m old new false owner nt nt'
  | .dynamic bootstrap nt, k => ∃ nt', k = .dynamic bootstrap nt' ∧ DynamicRenamed m old new nt nt'
  | .invokeDynamic bootstrap nt, k => ∃ nt', k = .invokeDynamic bootstrap nt' ∧
      DynamicRenamed m old new nt nt'
  | .methodType d, k => ∃ d' descriptor, k = .methodType d' ∧ old.text d = .ok descriptor ∧
      new.text d' = .ok (m.renameDescriptor descriptor)
  | k, k' => k' = k

variable {m : SymbolMapping} {original old new later : ConstantPool} {k k' : Constant}

theorem ReferenceRenamed.mono {isField : Bool} {owner nt nt' : UInt16}
    (h : ReferenceRenamed m original old isField owner nt nt') (hkeeps : old.Keeps new) :
    ReferenceRenamed m original new isField owner nt nt' := by
  obtain ⟨cls, name, descriptor, hcls, hnt, hnt'⟩ := h
  exact ⟨cls, name, descriptor, hcls, hnt, hkeeps.nameAndType hnt'⟩

theorem DynamicRenamed.mono {nt nt' : UInt16} (h : DynamicRenamed m original old nt nt')
    (hkeeps : old.Keeps new) : DynamicRenamed m original new nt nt' := by
  obtain ⟨name, descriptor, hnt, hnt'⟩ := h
  exact ⟨name, descriptor, hnt, hkeeps.nameAndType hnt'⟩

/-- A renamed constant stays so as long as the pool keeps its shared constants. -/
theorem Renamed.mono (h : Renamed m original old k k') (hkeeps : old.Keeps new) :
    Renamed m original new k k' := by
  cases k with
  | classRef | methodType =>
    obtain ⟨n', s, rfl, hs, hs'⟩ := h
    exact ⟨n', s, rfl, hs, hkeeps.text hs'⟩
  | fieldRef | methodRef | interfaceMethodRef | dynamic | invokeDynamic =>
    obtain ⟨nt', rfl, hnt⟩ := h
    exact ⟨nt', rfl, hnt.mono hkeeps⟩
  | _ => exact h

/-! ## Planned edits -/

namespace PoolEdit

theorem newClassName_eq (name : String) : newClassName m name = renamedClass m name := by
  simp [newClassName, renamedClass, isArrayName]

theorem newMemberName?_getD (isField : Bool) (owner name descriptor : String) :
    (newMemberName? m isField owner name descriptor).getD name =
      renamedMember m isField owner name descriptor := by
  simp only [newMemberName?, renamedMember, isArrayName, beq_iff_eq]
  split
  · rfl
  · split <;> rfl

/-- A planned edit gives the new name-and-type, and no edit is planned for one that stays. -/
theorem planReference_eq_ok {isField : Bool} {i owner nt : UInt16} {edit? : Option PoolEdit}
    (h : planReference m original isField i owner nt = .ok edit?) :
    ∃ cls name descriptor, original.className owner = .ok cls ∧
      original.nameAndType nt = .ok (name, descriptor) ∧
      (edit? = some (.nameAndType i (renamedMember m isField cls name descriptor)
          (m.renameDescriptor descriptor)) ∨
        edit? = none ∧ renamedMember m isField cls name descriptor = name ∧
          m.renameDescriptor descriptor = descriptor) := by
  obtain ⟨cls, hcls, h⟩ := except_bind_eq_ok_iff.1 h
  obtain ⟨⟨name, descriptor⟩, hnt, h⟩ := except_bind_eq_ok_iff.1 h
  refine ⟨cls, name, descriptor, hcls, hnt, ?_⟩
  rw [← newMemberName?_getD]
  dsimp only at h
  split at h
  · cases h
    exact .inl rfl
  · next hsame =>
    cases h
    exact .inr ⟨rfl, by simp_all, by simp_all⟩

theorem planDynamic_eq_ok {i nt : UInt16} {edit? : Option PoolEdit}
    (h : planDynamic m original i nt = .ok edit?) :
    ∃ name descriptor, original.nameAndType nt = .ok (name, descriptor) ∧
      (edit? = some (.nameAndType i name (m.renameDescriptor descriptor)) ∨
        edit? = none ∧ m.renameDescriptor descriptor = descriptor) := by
  obtain ⟨⟨name, descriptor⟩, hnt, h⟩ := except_bind_eq_ok_iff.1 h
  refine ⟨name, descriptor, hnt, ?_⟩
  dsimp only at h
  split at h <;> cases h
  · exact .inr ⟨rfl, by assumption⟩
  · exact .inl rfl

theorem planEntry_classRef_eq_ok {i n : UInt16} {edit? : Option PoolEdit}
    (h : planEntry m original (i, .classRef n) = .ok edit?) :
    ∃ name, original.text n = .ok name ∧
      (edit? = some (.className i (renamedClass m name)) ∨
        edit? = none ∧ renamedClass m name = name) := by
  obtain ⟨name, hname, h⟩ := except_bind_eq_ok_iff.1 h
  refine ⟨name, hname, ?_⟩
  rw [newClassName_eq] at h
  dsimp only at h
  split at h <;> cases h
  · exact .inr ⟨rfl, by assumption⟩
  · exact .inl rfl

theorem planEntry_methodType_eq_ok {i d : UInt16} {edit? : Option PoolEdit}
    (h : planEntry m original (i, .methodType d) = .ok edit?) :
    ∃ descriptor, original.text d = .ok descriptor ∧
      (edit? = some (.methodType i (m.renameDescriptor descriptor)) ∨
        edit? = none ∧ m.renameDescriptor descriptor = descriptor) := by
  obtain ⟨descriptor, hdescriptor, h⟩ := except_bind_eq_ok_iff.1 h
  refine ⟨descriptor, hdescriptor, ?_⟩
  dsimp only at h
  split at h <;> cases h
  · exact .inr ⟨rfl, by assumption⟩
  · exact .inl rfl

/-- A constant for which no edit is planned needs none. -/
theorem renamed_of_planEntry_none {i : UInt16} (h : planEntry m original (i, k) = .ok none) :
    Renamed m original original k k := by
  cases k with
  | classRef n =>
    obtain ⟨name, hname, h | ⟨-, hsame⟩⟩ := planEntry_classRef_eq_ok h
    · cases h
    · exact ⟨n, name, rfl, hname, by rw [hsame, hname]⟩
  | methodType d =>
    obtain ⟨descriptor, hdescriptor, h | ⟨-, hsame⟩⟩ := planEntry_methodType_eq_ok h
    · cases h
    · exact ⟨d, descriptor, rfl, hdescriptor, by rw [hsame, hdescriptor]⟩
  | fieldRef owner nt | methodRef owner nt | interfaceMethodRef owner nt =>
    obtain ⟨cls, name, descriptor, hcls, hnt, h | ⟨-, hname, hdescriptor⟩⟩ :=
      planReference_eq_ok h
    · cases h
    · exact ⟨nt, rfl, cls, name, descriptor, hcls, hnt, by rw [hname, hdescriptor, hnt]⟩
  | dynamic bootstrap nt | invokeDynamic bootstrap nt =>
    obtain ⟨name, descriptor, hnt, h | ⟨-, hdescriptor⟩⟩ := planDynamic_eq_ok h
    · cases h
    · exact ⟨nt, rfl, name, descriptor, hnt, by rw [hdescriptor, hnt]⟩
  | _ => rfl

/-! ## Edits carried out -/

section Apply

variable {interner interner' : Interner} {i : UInt16}

theorem apply_nameAndType (hsound : interner.Sound) (hk : interner.pool.slots[i.toNat]? = some k)
    (hshared : k.isShared = false) {name descriptor : String}
    (h : apply (.nameAndType i name descriptor) interner = .ok () interner') :
    ∃ nt k', withNameAndType? nt k = some k' ∧ interner'.Sound ∧
      interner.pool.Replaces interner'.pool i.toNat k' ∧
      interner'.pool.nameAndType nt = .ok (name, descriptor) := by
  obtain ⟨nt, middle, hnt, hupdate⟩ := estate_bind_eq_ok_iff.1 h
  obtain ⟨hmiddle, hgrows, hresolved⟩ := hsound.nameAndType hnt
  obtain ⟨k', hk', hsound', hreplaces, hkeeps⟩ := hmiddle.update hgrows hk hshared hupdate
  exact ⟨nt, k', hk', hsound', hreplaces, hkeeps.nameAndType hresolved⟩

theorem apply_text (hsound : interner.Sound) (hk : interner.pool.slots[i.toNat]? = some k)
    (hshared : k.isShared = false) {s : String} {f : UInt16 → Constant}
    (h : (do let n ← Interner.text s; Interner.update i fun _ => some (f n) : InternerM Unit)
      interner = .ok () interner') :
    ∃ n, interner'.Sound ∧ interner.pool.Replaces interner'.pool i.toNat (f n) ∧
      interner'.pool.text n = .ok s := by
  obtain ⟨n, middle, hn, hupdate⟩ := estate_bind_eq_ok_iff.1 h
  obtain ⟨hmiddle, hgrows, hresolved⟩ := hsound.text hn
  obtain ⟨k', hk', hsound', hreplaces, hkeeps⟩ := hmiddle.update hgrows hk hshared hupdate
  cases hk'
  exact ⟨n, hsound', hreplaces, hkeeps.text hresolved⟩

/-- Carrying out the edit that is planned for a constant renames it, and leaves all others. -/
theorem renamed_of_planEntry_some {e : PoolEdit}
    (hplan : planEntry m original (i, k) = .ok (some e))
    (hsound : interner.Sound) (hk : interner.pool.slots[i.toNat]? = some k)
    (h : e.apply interner = .ok () interner') :
    k.isShared = false ∧ ∃ k', interner'.Sound ∧
      interner.pool.Replaces interner'.pool i.toNat k' ∧
        Renamed m original interner'.pool k k' := by
  cases k with
  | classRef n =>
    obtain ⟨name, hname, hplan | ⟨hplan, -⟩⟩ := planEntry_classRef_eq_ok hplan
    · cases hplan
      obtain ⟨n', hsound', hreplaces, hn'⟩ := apply_text hsound hk rfl h
      exact ⟨rfl, _, hsound', hreplaces, n', name, rfl, hname, hn'⟩
    · cases hplan
  | methodType d =>
    obtain ⟨descriptor, hdescriptor, hplan | ⟨hplan, -⟩⟩ := planEntry_methodType_eq_ok hplan
    · cases hplan
      obtain ⟨d', hsound', hreplaces, hd'⟩ := apply_text hsound hk rfl h
      exact ⟨rfl, _, hsound', hreplaces, d', descriptor, rfl, hdescriptor, hd'⟩
    · cases hplan
  | fieldRef owner nt | methodRef owner nt | interfaceMethodRef owner nt =>
    obtain ⟨cls, name, descriptor, hcls, hnt, hplan | ⟨hplan, -⟩⟩ := planReference_eq_ok hplan
    · cases hplan
      obtain ⟨nt', k', hk', hsound', hreplaces, hnt'⟩ := apply_nameAndType hsound hk rfl h
      cases hk'
      exact ⟨rfl, _, hsound', hreplaces, nt', rfl, cls, name, descriptor, hcls, hnt, hnt'⟩
    · cases hplan
  | dynamic bootstrap nt | invokeDynamic bootstrap nt =>
    obtain ⟨name, descriptor, hnt, hplan | ⟨hplan, -⟩⟩ := planDynamic_eq_ok hplan
    · cases hplan
      obtain ⟨nt', k', hk', hsound', hreplaces, hnt'⟩ := apply_nameAndType hsound hk rfl h
      cases hk'
      exact ⟨rfl, _, hsound', hreplaces, nt', rfl, name, descriptor, hnt, hnt'⟩
    · cases hplan
  | _ => cases hplan

/-- A class is pointed to its new name, which is appended where no constant holds it. -/
theorem apply_className_of_absent (hsound : interner.Sound) (i n : UInt16) (name : String)
    (hk : interner.pool.slots[i.toNat]? = some (.classRef n))
    (habsent : Constant.utf8 (Utf8.encode name) ∉ interner.pool.slots)
    (hshort : name.utf8ByteSize ≤ ConstantPool.limit)
    (hroom : interner.pool.size < ConstantPool.limit) :
    ∃ interner', apply (.className i name) interner = .ok () interner' ∧ interner'.Sound ∧
      interner'.pool = ⟨(interner.pool.slots.push (.utf8 (Utf8.encode name))).setIfInBounds i.toNat
        (.classRef interner.pool.size.toUInt16)⟩ := by
  obtain ⟨middle, htext, hmiddle, hpool⟩ := hsound.text_of_absent name habsent hshort hroom
  have hgrows := (hsound.text htext).2.1
  have hget := ConstantPool.get_eq_ok_iff.2 ⟨hgrows.getElem? hk, by simp⟩
  have hupdate : Interner.update i (fun _ => some (.classRef interner.pool.size.toUInt16)) middle =
      .ok () { middle with pool := ⟨middle.pool.slots.setIfInBounds i.toNat
        (.classRef interner.pool.size.toUInt16)⟩ } :=
    Interner.update_eq_ok_iff.2 ⟨_, _, hget, rfl, rfl⟩
  obtain ⟨_, -, hsound', -, -⟩ := hmiddle.update hgrows hk rfl hupdate
  refine ⟨_, (estate_bind_of_ok htext _).trans hupdate, hsound', ?_⟩
  rw [hpool]

/-! ### Limits -/

theorem isShared_of_withNameAndType? {nt : UInt16} (h : withNameAndType? nt k = some k') :
    k'.isShared = false := by
  cases k <;> cases h <;> rfl

theorem withinLimits_apply {e : PoolEdit} (hwithin : interner.pool.WithinLimits)
    (h : e.apply interner = .ok () interner') : interner'.pool.WithinLimits := by
  cases e with
  | className | methodType =>
    obtain ⟨n, middle, htext, hupdate⟩ := estate_bind_eq_ok_iff.1 h
    refine Interner.withinLimits_update (Interner.withinLimits_text hwithin htext) ?_ hupdate
    intro _ _ heq
    cases heq
    rfl
  | nameAndType =>
    obtain ⟨nt, middle, hpair, hupdate⟩ := estate_bind_eq_ok_iff.1 h
    exact Interner.withinLimits_update (Interner.withinLimits_nameAndType hwithin hpair)
      (fun _ _ => isShared_of_withNameAndType?) hupdate

/-- Edits leave a pool that is as large and of texts as long as can be written. -/
theorem withinLimits_applyAll {edits : List PoolEdit} (hwithin : interner.pool.WithinLimits)
    (h : applyAll edits interner = .ok () interner') : interner'.pool.WithinLimits := by
  induction edits generalizing interner with
  | nil =>
    cases h
    exact hwithin
  | cons e edits ih =>
    obtain ⟨_, middle, hedit, hrest⟩ := estate_bind_eq_ok_iff.1 h
    exact ih (withinLimits_apply hwithin hedit) hrest

end Apply

end PoolEdit

/-! ## The run over all edits -/

/-- A pool on the way from the original one when the constants of the entries in `todo` are still
to be edited. They are as they were, all others are renamed, and what was appended is shared. -/
structure Progress (m : SymbolMapping) (original : ConstantPool)
    (todo : List (UInt16 × Constant)) (interner : Interner) : Prop where
  sound : interner.Sound
  keeps : original.Keeps interner.pool
  size_le : original.size ≤ interner.pool.size
  distinct : todo.Pairwise fun p q => p.1 ≠ q.1
  waiting : ∀ p ∈ todo, original.slots[p.1.toNat]? = some p.2 ∧
    interner.pool.slots[p.1.toNat]? = some p.2
  renamed : ∀ (i : Nat) k, original.slots[i]? = some k → (∀ p ∈ todo, p.1.toNat ≠ i) →
    ∃ k', interner.pool.slots[i]? = some k' ∧ Renamed m original interner.pool k k'
  appended : ∀ (i : Nat) k, original.size ≤ i → interner.pool.slots[i]? = some k →
    k.isShared = true

namespace Progress

variable {interner interner' : Interner} {p : UInt16 × Constant} {todo : List (UInt16 × Constant)}

theorem start (h : original.Addressable) :
    Progress m original original.entries (.ofPool original) := by
  obtain ⟨hsound, hpool⟩ := Interner.sound_ofPool h
  have hkeeps : original.Keeps (Interner.ofPool original).pool := by
    rw [hpool]
    exact .refl _
  refine ⟨hsound, hkeeps, Nat.le_of_eq (congrArg _ hpool.symm), h.pairwise_entries,
    fun p hp => ?_, fun i k hk hi => ?_, ?_⟩
  · rw [hpool]
    exact ⟨h.getElem?_of_mem_entries hp, h.getElem?_of_mem_entries hp⟩
  · -- A slot that is no entry holds no constant.
    have hk' : k = .unusable := Decidable.byContradiction fun hne =>
      hi (i.toUInt16, k) (ConstantPool.mem_entries.2 ⟨i, hk, hne, rfl⟩) (h.toNat_toUInt16 hk)
    subst hk'
    exact ⟨.unusable, by rw [hpool, hk], rfl⟩
  · rw [hpool]
    intro i k hi hk
    exact absurd (Array.getElem?_eq_some_iff.1 hk).1 (Nat.not_lt.2 hi)

/-- Going on to the next entry when it needs no edit. -/
theorem skip (h : Progress m original (p :: todo) interner)
    (hplan : PoolEdit.planEntry m original p = .ok none) : Progress m original todo interner where
  sound := h.sound
  keeps := h.keeps
  size_le := h.size_le
  distinct := h.distinct.of_cons
  waiting q hq := h.waiting q (List.mem_cons_of_mem _ hq)
  appended := h.appended
  renamed i k hk hi := by
    obtain ⟨horiginal, hnow⟩ := h.waiting p List.mem_cons_self
    by_cases hp : p.1.toNat = i
    · subst hp
      obtain rfl : p.2 = k := Option.some.inj (horiginal.symm.trans hk)
      exact ⟨p.2, hnow, (PoolEdit.renamed_of_planEntry_none hplan).mono h.keeps⟩
    · exact h.renamed i k hk (by simpa [hp] using hi)

/-- Going on to the next entry when it is edited. -/
theorem edit (h : Progress m original (p :: todo) interner) {e : PoolEdit}
    (hplan : PoolEdit.planEntry m original p = .ok (some e))
    (hedit : e.apply interner = .ok () interner') : Progress m original todo interner' := by
  obtain ⟨horiginal, hnow⟩ := h.waiting p List.mem_cons_self
  obtain ⟨hshared, k', hsound, hreplaces, hrenamed⟩ :=
    PoolEdit.renamed_of_planEntry_some hplan h.sound hnow hedit
  -- No later entry waits in the slot that is edited.
  have hne : ∀ q ∈ todo, p.1.toNat ≠ q.1.toNat := fun q hq heq =>
    List.rel_of_pairwise_cons h.distinct hq (UInt16.toNat_inj.1 heq)
  have hkeeps := hreplaces.keeps hnow hshared
  refine ⟨hsound, h.keeps.trans hkeeps, Nat.le_trans h.size_le hreplaces.size_le,
    h.distinct.of_cons, fun q hq => ?_, fun i k hk hi => ?_, fun i k hi hk => ?_⟩
  · obtain ⟨hq', hq''⟩ := h.waiting q (List.mem_cons_of_mem _ hq)
    exact ⟨hq', hreplaces.getElem?_of_ne (hne q hq) hq''⟩
  · by_cases hp : p.1.toNat = i
    · subst hp
      obtain rfl : p.2 = k := Option.some.inj (horiginal.symm.trans hk)
      exact ⟨k', hreplaces.getElem?_self hnow, hrenamed⟩
    · obtain ⟨k'', hk'', hrenamed'⟩ := h.renamed i k hk (by simpa [hp] using hi)
      exact ⟨k'', hreplaces.getElem?_of_ne hp hk'', hrenamed'.mono hkeeps⟩
  · have hp : p.1.toNat ≠ i := by
      have := (Array.getElem?_eq_some_iff.1 horiginal).1
      simp only [ConstantPool.size] at hi
      omega
    rcases hreplaces.getElem?_or hp hk with hold | hshared
    · exact h.appended i k hi hold
    · exact hshared

/-- Carrying out all edits leaves nothing to do. -/
theorem run {edits : List (Option PoolEdit)} (h : Progress m original todo interner)
    (hplan : todo.mapM (PoolEdit.planEntry m original) = .ok edits)
    (hrun : PoolEdit.applyAll (edits.filterMap id) interner = .ok () interner') :
    Progress m original [] interner' := by
  -- The edits were planned on the original pool, so each step speaks of the entry as it was there.
  induction todo generalizing interner edits with
  | nil =>
    cases hplan
    cases hrun
    exact h
  | cons p todo ih =>
    rw [List.mapM_cons] at hplan
    obtain ⟨edit?, hp, hplan⟩ := except_bind_eq_ok_iff.1 hplan
    obtain ⟨rest, hrest, hplan⟩ := except_bind_eq_ok_iff.1 hplan
    cases hplan
    cases edit? with
    | none => exact ih (h.skip hp) hrest hrun
    | some e =>
      obtain ⟨_, middle, hedit, hrun⟩ := estate_bind_eq_ok_iff.1 hrun
      exact ih (h.edit hp hedit) hrest hrun

end Progress

end JarRefit.Renaming
