import JarRefit.Proofs.Renaming.Class
import JarRefit.Proofs.Renaming.Indexing

/-!
# Edits and requests in any order

An interner carries out the edits that are planned for its pool, in any order and again and again,
and is asked for texts and names-and-types in between; any of this can fail. All the while it
answers as a search of its pool would. What is added to the pool is there once, and only if the
pool did not hold it from the start.

## Main definitions

* `EditedFrom`: a pool with other constants replaced and shared ones added.
* `Step`: an edit or a request.
* `AgreesWithSearch`: how an interner answers, and what has been added to its pool.
-/
namespace JarRefit.Renaming

open ClassFile Naming

variable {m : SymbolMapping} {original pool old new : ConstantPool} {k k' : Constant}
  {interner interner' : Interner}

/-! ## Edited pools -/

/-- The pool is the original one where constants that are not shared may have been replaced by
others, with shared constants added that it did not hold, each of them once. -/
structure EditedFrom (original pool : ConstantPool) : Prop where
  size_le : original.size ≤ pool.size
  kept : ∀ (i : Nat) k, original.slots[i]? = some k →
    ∃ k', pool.slots[i]? = some k' ∧ k'.isShared = k.isShared ∧ (k.isShared = true → k' = k)
  nodup : (pool.slots.toList.drop original.size).Nodup
  added : ∀ k ∈ pool.slots.toList.drop original.size, k.isShared = true ∧ k ∉ original.slots

namespace EditedFrom

theorem refl (pool : ConstantPool) : EditedFrom pool pool := by
  have hdrop : pool.slots.toList.drop pool.size = [] := List.drop_eq_nil_of_le (Nat.le_refl _)
  exact ⟨Nat.le_refl _, fun _ k hk => ⟨k, hk, rfl, fun _ => rfl⟩, by simp [hdrop], by simp [hdrop]⟩

theorem push (h : EditedFrom original old) (hshared : k.isShared = true) (habsent : k ∉ old.slots)
    {i : UInt16} (hpush : ConstantPool.push k old = .ok i new) : EditedFrom original new := by
  obtain ⟨-, hslots⟩ := ConstantPool.push_eq_ok (k.isWide_of_isShared hshared) hpush
  have hgrows : old.Grows new := .push hslots hshared
  have hdrop : new.slots.toList.drop original.size =
      old.slots.toList.drop original.size ++ [k] := by
    rw [hslots, Array.toList_push, List.drop_append_of_le_length h.size_le]
  have hfresh : k ∉ old.slots.toList.drop original.size := fun hmem =>
    habsent (Array.mem_toList_iff.1 (List.mem_of_mem_drop hmem))
  refine ⟨h.size_le.trans hgrows.size_le, fun j c hc => ?_, ?_, fun c hc => ?_⟩
  · obtain ⟨c', hc', hsame⟩ := h.kept j c hc
    exact ⟨c', hgrows.getElem? hc', hsame⟩
  · rw [hdrop, List.nodup_append]
    exact ⟨h.nodup, by simp, fun a ha b hb heq => hfresh (by simp_all)⟩
  · rw [hdrop, List.mem_append, List.mem_singleton] at hc
    rcases hc with hc | rfl
    · exact h.added c hc
    · refine ⟨hshared, fun hmem => habsent ?_⟩
      -- A shared constant of the original pool would still be there.
      obtain ⟨j, hj⟩ := Array.mem_iff_getElem?.1 hmem
      obtain ⟨c', hc', -, hsame⟩ := h.kept j c hj
      obtain rfl := hsame hshared
      exact Array.mem_of_getElem? hc'

theorem setIfInBounds (h : EditedFrom original pool) {i : Nat}
    (hold : original.slots[i]? = some k) (hk : k.isShared = false) (hk' : k'.isShared = false) :
    EditedFrom original ⟨pool.slots.setIfInBounds i k'⟩ := by
  have hlt : i < original.size := (Array.getElem?_eq_some_iff.1 hold).1
  have hdrop : (pool.slots.setIfInBounds i k').toList.drop original.size =
      pool.slots.toList.drop original.size := by
    rw [Array.toList_setIfInBounds, List.drop_set_of_lt hlt]
  refine ⟨by simpa [ConstantPool.size] using h.size_le, fun j c hc => ?_, hdrop ▸ h.nodup,
    hdrop ▸ h.added⟩
  by_cases hij : i = j
  · subst hij
    obtain rfl : k = c := Option.some.inj (hold.symm.trans hc)
    refine ⟨k', Array.getElem?_setIfInBounds_self_of_lt (hlt.trans_le h.size_le),
      hk'.trans hk.symm, fun hshared => ?_⟩
    rw [hk] at hshared
    cases hshared
  · obtain ⟨c', hc', hsame⟩ := h.kept j c hc
    exact ⟨c', (Array.getElem?_setIfInBounds_ne hij).trans hc', hsame⟩

end EditedFrom

/-! ## Planned edits -/

namespace PoolEdit

/-- The slot that is edited. -/
def index : PoolEdit → UInt16
  | className i _ | nameAndType i _ _ | methodType i _ => i

theorem index_of_planEntry {i : UInt16} {e : PoolEdit}
    (h : planEntry m original (i, k) = .ok (some e)) : e.index = i ∧ k.isShared = false := by
  cases k with
  | classRef n =>
    obtain ⟨_, -, h | ⟨h, -⟩⟩ := planEntry_classRef_eq_ok h <;> cases h
    exact ⟨rfl, rfl⟩
  | methodType d =>
    obtain ⟨_, -, h | ⟨h, -⟩⟩ := planEntry_methodType_eq_ok h <;> cases h
    exact ⟨rfl, rfl⟩
  | fieldRef owner nt | methodRef owner nt | interfaceMethodRef owner nt =>
    obtain ⟨_, _, _, -, -, h | ⟨h, -⟩⟩ := planReference_eq_ok h <;> cases h
    exact ⟨rfl, rfl⟩
  | dynamic bootstrap nt | invokeDynamic bootstrap nt =>
    obtain ⟨_, _, -, h | ⟨h, -⟩⟩ := planDynamic_eq_ok h <;> cases h
    exact ⟨rfl, rfl⟩
  | _ => cases h

/-- A planned edit is for a slot whose constant is not shared. -/
theorem exists_slot_of_plan (hpool : pool.Addressable) {edits : List PoolEdit}
    (hplan : plan m pool = .ok edits) {e : PoolEdit} (he : e ∈ edits) :
    ∃ k, pool.slots[e.index.toNat]? = some k ∧ k.isShared = false := by
  obtain ⟨planned, hplanned, hplan⟩ := except_bind_eq_ok_iff.1 hplan
  cases hplan
  obtain ⟨edit?, hmem, rfl⟩ := List.mem_filterMap.1 he
  obtain ⟨⟨i, k⟩, hentry, hk⟩ := exists_mem_of_mapM_eq_ok hplanned hmem
  obtain ⟨hi, hshared⟩ := index_of_planEntry hk
  exact ⟨k, hi ▸ hpool.getElem?_of_mem_entries hentry, hshared⟩

end PoolEdit

/-! ## An interner between edits -/

/-- The indexes of the interner agree with its pool, which is an edited one. -/
structure InStep (original : ConstantPool) (interner : Interner) : Prop where
  indexed : interner.Indexed
  edited : EditedFrom original interner.pool

namespace InStep

theorem start (h : original.Addressable) : InStep original (.ofPool original) where
  indexed := Interner.indexed_ofPool h
  edited := by
    rw [(Interner.sound_ofPool h).2]
    exact .refl original

theorem adds (h : InStep original interner) (hadds : Interner.Adds k interner interner') :
    InStep original interner' where
  indexed := h.indexed.adds hadds
  edited := by
    obtain ⟨i, hpush, -⟩ := hadds.added
    exact h.edited.push hadds.shared hadds.absent hpush

theorem text (h : InStep original interner) (s : String) :
    InStep original (stateAfter (Interner.text s) interner) :=
  Interner.keeps_text (fun _ => InStep.indexed) (fun _ _ _ => InStep.adds) h s

theorem nameAndType (h : InStep original interner) (name descriptor : String) :
    InStep original (stateAfter (Interner.nameAndType name descriptor) interner) :=
  Interner.keeps_nameAndType (fun _ => InStep.indexed) (fun _ _ _ => InStep.adds) h name descriptor

theorem update (h : InStep original interner) {i : UInt16} {f : Constant → Option Constant}
    (hold : original.slots[i.toNat]? = some k) (hk : k.isShared = false)
    (hf : ∀ c c', f c = some c' → c'.isShared = false) :
    InStep original (stateAfter (Interner.update i f) interner) := by
  cases hrun : Interner.update i f interner with
  | error e interner' =>
    rw [stateAfter_of_error hrun, Interner.update_eq_error hrun]
    exact h
  | ok _ interner' =>
    obtain ⟨c, c', hget, hc', rfl⟩ := Interner.update_eq_ok_iff.1 hrun
    obtain ⟨held, hheld, hshared, -⟩ := h.edited.kept _ _ hold
    rw [stateAfter_of_ok hrun]
    exact ⟨h.indexed.setIfInBounds hheld (hshared.trans hk) (hf c c' hc'),
      h.edited.setIfInBounds hold hk (hf c c' hc')⟩

/-- A planned edit asks for what its constant is to point to, and then replaces the constant, which
is not shared, by another such. -/
theorem apply (h : InStep original interner) {e : PoolEdit}
    (he : ∃ k, original.slots[e.index.toNat]? = some k ∧ k.isShared = false) :
    InStep original (stateAfter e.apply interner) := by
  obtain ⟨k, hold, hk⟩ := he
  cases e with
  | className i s | methodType i s =>
    rcases stateAfter_bind_cases (Interner.text s) _ interner with hsame | ⟨n, -, hsame⟩ <;>
      rw [PoolEdit.apply, hsame]
    · exact h.text s
    · refine (h.text s).update hold hk fun c c' hc => ?_
      cases hc
      rfl
  | nameAndType i name descriptor =>
    rcases stateAfter_bind_cases (Interner.nameAndType name descriptor) _ interner with
      hsame | ⟨nt, -, hsame⟩ <;> rw [PoolEdit.apply, hsame]
    · exact h.nameAndType name descriptor
    · exact (h.nameAndType name descriptor).update hold hk fun _ _ =>
        PoolEdit.isShared_of_withNameAndType?

end InStep

/-! ## Steps in any order -/

/-- What an interner is told to do: to carry out an edit, or to give the slot of a text or of a
name-and-type. What an edit and a name-and-type ask for in turn are such steps as well. -/
inductive Step where
  | edit (e : PoolEdit)
  | text (s : String)
  | nameAndType (name descriptor : String)

namespace Step

/-- Does the step, of which only the effect on the interner counts here. -/
def run : Step → InternerM Unit
  | edit e => e.apply
  | text s => do
    let _ ← Interner.text s
    return
  | nameAndType name descriptor => do
    let _ ← Interner.nameAndType name descriptor
    return

/-- The interner after steps one after another, of which each can fail. -/
def afterAll (interner : Interner) (steps : List Step) : Interner :=
  stateAfterAll run interner steps

end Step

theorem InStep.afterAll (h : InStep original interner) {steps : List Step}
    (hedits : ∀ e, .edit e ∈ steps →
      ∃ k, original.slots[e.index.toNat]? = some k ∧ k.isShared = false) :
    InStep original (Step.afterAll interner steps) := by
  refine stateAfterAll_keeps (fun step hstep middle hmiddle => ?_) h
  cases step with
  | edit e => exact hmiddle.apply (hedits e hstep)
  | text s =>
    rw [Step.run, stateAfter_bind_pure]
    exact hmiddle.text s
  | nameAndType name descriptor =>
    rw [Step.run, stateAfter_bind_pure]
    exact hmiddle.nameAndType name descriptor

/-- How an interner answers that was made from a pool: it gives the index or the fault for a text
that a search of its pool as it is now would give, and leaves the same pool; the index of a
name-and-type leads to the texts that were asked for, and there is one unless room is wanting. What
has been added to the pool are texts and names-and-types, each of them once, that the pool did not
hold at first. -/
structure AgreesWithSearch (original : ConstantPool) (interner : Interner) : Prop where
  text : ∀ s, Interner.onlyPool (Interner.text s) interner =
    ConstantPool.internText s interner.pool
  nameAndType : ∀ name descriptor i interner',
    Interner.nameAndType name descriptor interner = .ok i interner' →
      interner'.pool.nameAndType i = .ok (name, descriptor)
  refused : ∀ name descriptor e interner',
    Interner.nameAndType name descriptor interner = .error e interner' →
      interner'.pool.WantsRoom [name, descriptor] e
  nodup : (interner.pool.slots.toList.drop original.size).Nodup
  added : ∀ k ∈ interner.pool.slots.toList.drop original.size,
    k.isShared = true ∧ k ∉ original.slots

/-- An interner of a pool that is filled answers so after every row of steps whose edits are planned
for the pool. -/
theorem agreesWithSearch_afterAll {edits : List PoolEdit} {steps : List Step} (hpool : pool.Filled)
    (hplan : PoolEdit.plan m pool = .ok edits) (hsteps : ∀ e, .edit e ∈ steps → e ∈ edits) :
    AgreesWithSearch pool (Step.afterAll (.ofPool pool) steps) := by
  have haddressable := hpool.addressable
  have hafter := (InStep.start haddressable).afterAll fun e he =>
    PoolEdit.exists_slot_of_plan haddressable hplan (hsteps e he)
  exact {
    text := hafter.indexed.onlyPool_text
    nameAndType := fun _ _ _ _ hrun => (hafter.indexed.sound.nameAndType hrun).2.2
    refused := fun _ _ _ _ hrun => Interner.wantsRoom_of_nameAndType hrun
    nodup := hafter.edited.nodup
    added := hafter.edited.added }

/-- A pool with a text, and a name-and-type of the same texts, twice, and a field reference to
each. -/
def repeating : ConstantPool :=
  ⟨#[.unusable, .utf8 (Utf8.encode "f"), .classRef 1, .utf8 (Utf8.encode "d"),
    .utf8 (Utf8.encode "I"), .nameAndType 3 4, .fieldRef 2 5, .utf8 (Utf8.encode "I"),
    .nameAndType 3 7, .fieldRef 2 8]⟩

theorem plan_repeating : PoolEdit.plan heirMapping repeating =
    .ok [.nameAndType 6 "field_1" "I", .nameAndType 9 "field_1" "I"] := by
  simp [PoolEdit.plan, repeating, ConstantPool.entries, PoolEdit.planEntry,
    PoolEdit.planReference, ConstantPool.text, ConstantPool.get, ConstantPool.className,
    ConstantPool.nameAndType, bind, Except.bind, pure, Except.pure, Utf8.decode?_encode,
    PoolEdit.newClassName, PoolEdit.newMemberName?, PoolEdit.isArrayName, renameClass_heir,
    renameDescriptor_int, renameField_heir]

/-- The edits of the pool in another order, one of them twice, with requests in between. -/
def mixedSteps : List Step :=
  [.text "I", .edit (.nameAndType 9 "field_1" "I"), .text "field_1",
    .edit (.nameAndType 6 "field_1" "I"), .nameAndType "e" "I",
    .edit (.nameAndType 9 "field_1" "I"), .text "d"]

theorem agreesWithSearch_repeating :
    repeating.Filled ∧
      PoolEdit.plan heirMapping repeating =
        .ok [.nameAndType 6 "field_1" "I", .nameAndType 9 "field_1" "I"] ∧
      (∀ e, Step.edit e ∈ mixedSteps →
        e ∈ [PoolEdit.nameAndType 6 "field_1" "I", .nameAndType 9 "field_1" "I"]) ∧
      AgreesWithSearch repeating (Step.afterAll (.ofPool repeating) mixedSteps) := by
  have hfilled : repeating.Filled :=
    ConstantPool.Filled.empty.pushAll [.utf8 (Utf8.encode "f"), .classRef 1,
      .utf8 (Utf8.encode "d"), .utf8 (Utf8.encode "I"), .nameAndType 3 4, .fieldRef 2 5,
      .utf8 (Utf8.encode "I"), .nameAndType 3 7, .fieldRef 2 8]
  have hsteps : ∀ e, Step.edit e ∈ mixedSteps →
      e ∈ [PoolEdit.nameAndType 6 "field_1" "I", .nameAndType 9 "field_1" "I"] := by
    simp [mixedSteps]
  exact ⟨hfilled, plan_repeating, hsteps,
    agreesWithSearch_afterAll hfilled plan_repeating hsteps⟩

end JarRefit.Renaming
