import Mathlib.Data.List.Chain
import JarRefit.Proofs.ClassFile.RoundTrip
import JarRefit.Proofs.ClassFile.Widening
import JarRefit.Proofs.Renaming.Class
import JarRefit.Proofs.Renaming.Extents

/-!
# Rewritten classes can be written

Renaming a class file that can be written and read again, and widening it after that, gives another
one, unless it fails: wide constants keep their slots, and neither the pool nor a text in it
outgrows its count.

## Main definitions

* `ClassFile.Extents.Fit`: the lengths for which there is room in a class file.
-/
namespace JarRefit

open ClassFile Naming Renaming

/-! ## Unusable slots -/

namespace ClassFile.ConstantPool

/-- A well-laid pool by its slots. -/
theorem wellLaid_iff {pool : ConstantPool} :
    pool.WellLaid ↔ pool.slots[0]? = some .unusable ∧
      ∀ (i : Nat) k, pool.slots[i]? = some k →
        (pool.slots[i + 1]? = some .unusable ↔ k.isWide = true) := by
  constructor
  · intro h
    refine ⟨by simpa [List.head?_eq_getElem?] using h.head, fun i k hk => ?_⟩
    obtain ⟨hlt, rfl⟩ := Array.getElem?_eq_some_iff.1 hk
    by_cases hnext : i + 1 < pool.slots.size
    · have := List.isChain_iff_getElem.1 h.neighbours i (by simpa using hnext)
      simpa [Array.getElem?_eq_getElem hnext, Follows] using this
    · rw [Array.getElem?_eq_none (by omega)]
      simpa using fun hw => hnext (h.lt_of_isWide hk hw)
  · rintro ⟨hhead, hnext⟩
    refine ⟨by simpa [List.head?_eq_getElem?] using hhead, List.isChain_iff_getElem.2 ?_, ?_⟩
    · intro i hi
      have hi : i + 1 < pool.slots.size := by simpa using hi
      have := hnext i _ (Array.getElem?_eq_getElem (by omega))
      simpa [Array.getElem?_eq_getElem hi, Follows] using this
    · intro k hk
      rw [Option.mem_def, List.getLast?_eq_getElem?, Array.getElem?_toList] at hk
      have hlt := (Array.getElem?_eq_some_iff.1 hk).1
      have := hnext _ k hk
      rw [Array.length_toList, Nat.sub_add_cancel (by omega), Array.getElem?_eq_none (by omega)]
        at this
      simpa using this

end ClassFile.ConstantPool

namespace Renaming

variable {m : SymbolMapping} {old new : ConstantPool} {k k' : Constant}

theorem Renamed.isWide_eq (h : Renamed m old new k k') : k'.isWide = k.isWide := by
  cases k with
  | classRef | methodType =>
    obtain ⟨_, _, rfl, -⟩ := h
    rfl
  | fieldRef | methodRef | interfaceMethodRef | dynamic | invokeDynamic =>
    obtain ⟨_, rfl, -⟩ := h
    rfl
  | _ => rw [h]

theorem Renamed.eq_unusable_iff (h : Renamed m old new k k') : k' = .unusable ↔ k = .unusable := by
  cases k with
  | classRef | methodType =>
    obtain ⟨_, _, rfl, -⟩ := h
    simp
  | fieldRef | methodRef | interfaceMethodRef | dynamic | invokeDynamic =>
    obtain ⟨_, rfl, -⟩ := h
    simp
  | _ => rw [h]

/-- Behind the old constants stand shared ones only, so the unusable slots are the old ones. -/
theorem PoolRenamed.getElem?_unusable_iff (h : PoolRenamed m old new) (i : Nat) :
    new.slots[i]? = some .unusable ↔ old.slots[i]? = some .unusable := by
  by_cases hi : i < old.slots.size
  · obtain ⟨k', hk', hrenamed⟩ := h.renamed i _ (Array.getElem?_eq_getElem hi)
    rw [hk', Array.getElem?_eq_getElem hi, Option.some.injEq, Option.some.injEq,
      hrenamed.eq_unusable_iff]
  · have hold : old.slots[i]? = none := Array.getElem?_eq_none (Nat.not_lt.1 hi)
    have hnew : new.slots[i]? ≠ some .unusable := fun hnew =>
      absurd (h.appended i _ (Nat.not_lt.1 hi) hnew) (by decide)
    simp [hold, hnew]

theorem PoolRenamed.wellLaid (h : PoolRenamed m old new) (hold : old.WellLaid) : new.WellLaid := by
  obtain ⟨hhead, hnext⟩ := ConstantPool.wellLaid_iff.1 hold
  refine ConstantPool.wellLaid_iff.2 ⟨(h.getElem?_unusable_iff 0).2 hhead, fun i k' hk' => ?_⟩
  rw [h.getElem?_unusable_iff]
  by_cases hi : i < old.slots.size
  · obtain ⟨_, hnew, hrenamed⟩ := h.renamed i _ (Array.getElem?_eq_getElem hi)
    obtain rfl := Option.some.inj (hnew.symm.trans hk')
    rw [hrenamed.isWide_eq, hnext i _ (Array.getElem?_eq_getElem hi)]
  · have hshared := h.appended i k' (Nat.not_lt.1 hi) hk'
    rw [Array.getElem?_eq_none (by omega)]
    cases k' <;> simp_all [Constant.isShared, Constant.isWide]

end Renaming

namespace ClassFile

variable {m : SymbolMapping} {table : Access.Table} {c c' : ClassFile} {newName : String}

/-! ## Lengths -/

/-- The payloads of a member for which there is room. -/
def PayloadsFit (payloads : List Nat) : Prop :=
  payloads.length ≤ 65535 ∧ ∀ n ∈ payloads, n < 2 ^ 32

/-- The lengths for which there is room in a class file. -/
structure Extents.Fit (e : Extents) : Prop where
  interfaces : e.interfaces ≤ 65535
  fields : e.fields.length ≤ 65535 ∧ ∀ payloads ∈ e.fields, PayloadsFit payloads
  methods : e.methods.length ≤ 65535 ∧ ∀ payloads ∈ e.methods, PayloadsFit payloads
  attributes : PayloadsFit e.attributes

theorem Member.fits_iff (d : Member) : d.Fits ↔ PayloadsFit d.extents := by
  simp [Member.Fits, Attribute.Fits, PayloadsFit, Member.extents, Attribute.extent]

theorem tablesFit_iff : c.TablesFit ↔ c.extents.Fit := by
  have hmembers (ms : List Member) : (ms.length ≤ 65535 ∧ ∀ d ∈ ms, d.Fits) ↔
      (ms.map Member.extents).length ≤ 65535 ∧ ∀ payloads ∈ ms.map Member.extents,
        PayloadsFit payloads := by
    simp [Member.fits_iff]
  have hattributes : (c.attributes.length ≤ 65535 ∧ ∀ a ∈ c.attributes, a.Fits) ↔
      PayloadsFit (c.attributes.map Attribute.extent) := by
    simp [PayloadsFit, Attribute.extent, Attribute.Fits]
  constructor
  · rintro ⟨hinterfaces, hfields, hmethods, hattrs⟩
    exact ⟨hinterfaces, (hmembers _).1 hfields, (hmembers _).1 hmethods, hattributes.1 hattrs⟩
  · rintro ⟨hinterfaces, hfields, hmethods, hattrs⟩
    exact ⟨hinterfaces, (hmembers _).2 hfields, (hmembers _).2 hmethods, hattributes.2 hattrs⟩

/-- A class file can be written and read again just by its pool and its lengths. -/
theorem representable_iff_extents :
    c.Representable ↔ (c.pool.WellLaid ∧ c.pool.WithinLimits) ∧ c.extents.Fit := by
  rw [representable_iff, ConstantPool.readFrom_size_iff, tablesFit_iff]
  exact and_congr_left' (and_congr_right' ⟨fun h => ⟨h.1, h.2⟩, fun h => ⟨h.size, h.texts⟩⟩)

/-! ## Renaming -/

theorem withinLimits_rename (hc : c.pool.Addressable) (hwithin : c.pool.WithinLimits)
    (h : c.rename m = .ok newName c') : c'.pool.WithinLimits := by
  obtain ⟨_, _, edited, desk, -, -, hplan, hrun, hdeclarations, rfl⟩ := rename_eq_ok h
  have hedited := (Progress.start hc).run hplan hrun
  refine (Sheet.renameDeclarations_extending hedited.sound hdeclarations).withinLimits ?_
  refine PoolEdit.withinLimits_applyAll ?_ hrun
  rwa [(Interner.sound_ofPool hc).2]

theorem representable_rename (hc : c.Representable) (h : c.rename m = .ok newName c') :
    c'.Representable := by
  obtain ⟨⟨hlaid, hwithin⟩, hfit⟩ := representable_iff_extents.1 hc
  have haddressable := hwithin.addressable
  obtain ⟨_, -, -, hpool, hbody⟩ := renamed_of_rename haddressable h
  refine representable_iff_extents.2 ⟨⟨hpool.wellLaid hlaid, ?_⟩, ?_⟩
  · exact withinLimits_rename haddressable hwithin h
  · rwa [hbody.extents]

/-! ## Widening -/

/-- Widening leaves the constants and the lengths of a class. -/
theorem pool_extents_widen (h : c.widen table = .ok () c') :
    c'.pool = c.pool ∧ c'.extents = c.extents := by
  obtain ⟨-, hmembers, hrest⟩ := classWidened_of_widen h
  have hextents (d d' : Member) (hd : MemberWidened d d') : d'.extents = d.extents := by
    rw [hd.rest, Member.extents, Member.extents]
  have hfields : c'.fields.map Member.extents = c.fields.map Member.extents :=
    map_eq_map_of_forall₂ (hmembers .field) hextents
  have hmethods : c'.methods.map Member.extents = c.methods.map Member.extents :=
    map_eq_map_of_forall₂ (hmembers .method) hextents
  rw [extents, extents, hfields, hmethods, hrest]
  exact ⟨rfl, rfl⟩

theorem representable_widen (hc : c.Representable) (h : c.widen table = .ok () c') :
    c'.Representable := by
  obtain ⟨hpool, hextents⟩ := pool_extents_widen h
  rw [representable_iff_extents] at hc ⊢
  rwa [hpool, hextents]

/-! ## Rewriting -/

/-- A change that makes the field `d` of `f` public. -/
def heirTable : Access.Table :=
  Access.Table.empty.add "f.d" ⟨.pub, .unchanged⟩

/-- The class with its field made public. -/
def heirWidened : ClassFile :=
  { heirRenamed with fields := [⟨⟨1⟩, 3, 4, []⟩] }

theorem decode_encode_heir : decode heir.encode = .ok heir := by
  rfl

theorem applyTo_heir :
    heirTable.applyTo (.cls "f") ⟨1⟩ = ⟨1⟩ ∧
      heirTable.applyTo (.field "f" "d") .privateBit = ⟨1⟩ := by
  simp only [Access.Table.applyTo_eq, Access.Table.mergedChange, Access.Symbol.keys]
  simp [heirTable, Access.Table.getElem?_add, Access.Table.empty]
  decide

theorem widen_heir : heirRenamed.widen heirTable = .ok () heirWidened := by
  have hname : heirRenamed.name = .ok "f" :=
    ConstantPool.className_eq_ok_iff.2 ⟨1, rfl, ConstantPool.text_eq_ok_iff.2 rfl⟩
  have htext : heirRenamed.pool.text 3 = .ok "d" := ConstantPool.text_eq_ok_iff.2 rfl
  obtain ⟨hclass, hfield⟩ := applyTo_heir
  refine widen_eq_ok_iff.2 ⟨"f", hname, ?_, ?_⟩
  · rintro (_ | _)
    · refine .cons ⟨.field "f" "d", ?_, ?_⟩ .nil
      · simp [Member.symbol, htext]
      · simp only [hfield]
    · exact .nil
  · rw [show heirRenamed.access = ⟨1⟩ from rfl, hclass]
    rfl

end ClassFile

end JarRefit
