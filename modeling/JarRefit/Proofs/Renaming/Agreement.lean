import JarRefit.Proofs.Naming.Enclosing
import JarRefit.Proofs.Naming.Reachability
import JarRefit.Renaming.Class

/-!
# Mappings that agree

Renaming a class goes by the answers of a mapping only. Of the hierarchy it is only the parents of
each class that count, not the tables they come from.

## Main definitions

* `SymbolMapping.Agrees`: two mappings give every symbol the same new name.
-/
namespace JarRefit

open ClassFile Naming Renaming

namespace Naming

/-! ## Hierarchies -/

namespace Hierarchy

variable {β : Type} {h h' : Hierarchy}

theorem search_congr (hparents : ∀ cls, h.parents cls = h'.parents cls)
    (lookup? : String → Option β) (visited pending : List String) :
    h.search lookup? visited pending = h'.search lookup? visited pending := by
  induction visited, pending using search_induction h lookup? with
  | done visited => rw [search_nil, search_nil]
  | skip visited c pending hc ih => rw [search_cons, search_cons, if_pos hc, if_pos hc, ih]
  | found visited c pending x hc hx =>
    rw [search_cons, search_cons, if_neg hc, if_neg hc, hx, Option.some_or, Option.some_or]
  | expand visited c pending hc hx ih =>
    rw [search_cons, search_cons, if_neg hc, if_neg hc, ih, hparents c]

theorem find?_congr (hparents : ∀ cls, h.parents cls = h'.parents cls)
    (lookup? : String → Option β) (cls : String) : h.find? lookup? cls = h'.find? lookup? cls :=
  search_congr hparents lookup? [] [cls]

end Hierarchy

/-! ## Mappings -/

namespace SymbolMapping

variable {m m' : SymbolMapping}

/-- Two mappings that give every symbol the same new name, as far as they give one. -/
structure Agrees (m m' : SymbolMapping) : Prop where
  classes : m.renameClass = m'.renameClass
  fields : m.renameField? = m'.renameField?
  methods : m.renameMethod? = m'.renameMethod?
  fieldEntries : m.fieldEntry? = m'.fieldEntry?
  methodEntries : m.methodEntry? = m'.methodEntry?

/-- The new name of a class has nothing to do with the hierarchy. -/
theorem renameClass_withHierarchy (m : SymbolMapping) (hierarchy : Option Hierarchy) :
    { m with hierarchy }.renameClass = m.renameClass := by
  funext cls
  fun_induction renameClass m cls with
  | case1 cls new hnew => simp [renameClass_eq, hnew]
  | case2 cls hnone outer inner hcut outerName newOuter hsame ih =>
    simp [renameClass_eq _ cls, hnone, hcut, outerName, newOuter, hsame, ih]
  | case3 cls hnone outer inner hcut outerName newOuter hne ih =>
    simp [renameClass_eq _ cls, hnone, hcut, outerName, newOuter, hne, ih]
  | case4 cls hnone hcut =>
    simp [renameClass_eq _ cls, hnone, hcut]
    rfl

theorem agrees_of_parents {h h' : Hierarchy} (hparents : ∀ cls, h.parents cls = h'.parents cls) :
    Agrees { m with hierarchy := some h } { m with hierarchy := some h' } := by
  have hfind (lookup? : String → Option String) (cls : String) :
      findInHierarchy { m with hierarchy := some h } lookup? cls =
        findInHierarchy { m with hierarchy := some h' } lookup? cls :=
    Hierarchy.find?_congr hparents lookup? cls
  refine ⟨?_, ?_, ?_, rfl, rfl⟩
  · exact (m.renameClass_withHierarchy _).trans (m.renameClass_withHierarchy _).symm
  · funext owner name
    exact hfind _ owner
  · funext owner name descriptor
    rw [renameMethod?, renameMethod?]
    exact congrArg _ (hfind _ owner)

namespace Agrees

theorem renameDescriptor (h : m.Agrees m') : m.renameDescriptor = m'.renameDescriptor := by
  funext descriptor
  rw [SymbolMapping.renameDescriptor, SymbolMapping.renameDescriptor, h.classes]

theorem renameSignature? (h : m.Agrees m') : m.renameSignature? = m'.renameSignature? := by
  funext signature
  rw [SymbolMapping.renameSignature?, SymbolMapping.renameSignature?, h.classes]

theorem newClassName (h : m.Agrees m') : PoolEdit.newClassName m = PoolEdit.newClassName m' := by
  funext name
  rw [PoolEdit.newClassName, PoolEdit.newClassName, h.renameDescriptor, h.classes]

theorem newMemberName? (h : m.Agrees m') :
    PoolEdit.newMemberName? m = PoolEdit.newMemberName? m' := by
  funext isField owner name descriptor
  rw [PoolEdit.newMemberName?, PoolEdit.newMemberName?, h.fields, h.methods]

theorem plan (h : m.Agrees m') (pool : ConstantPool) :
    PoolEdit.plan m pool = PoolEdit.plan m' pool := by
  have hentry : PoolEdit.planEntry m pool = PoolEdit.planEntry m' pool := by
    funext ⟨index, k⟩
    cases k <;>
      simp only [PoolEdit.planEntry, PoolEdit.planReference, PoolEdit.planDynamic, h.newClassName,
        h.newMemberName?, h.renameDescriptor]
  rw [PoolEdit.plan, PoolEdit.plan, hentry]

theorem renameDeclarations (h : m.Agrees m') (pool : ConstantPool) (owner : String) :
    Sheet.renameDeclarations ⟨m, pool, owner⟩ = Sheet.renameDeclarations ⟨m', pool, owner⟩ := by
  simp only [Sheet.renameDeclarations, Sheet.renameField, Sheet.renameMethod, Sheet.renameMember,
    Sheet.renameSignature, Sheet.renameNestedAttribute, Sheet.renameNested, renameDeclaredField?,
    renameDeclaredMethod?, h.renameDescriptor, h.renameSignature?, h.classes, h.fields, h.methods,
    h.fieldEntries, h.methodEntries]

/-- Mappings that agree rename each class alike, and fail alike. -/
theorem rename (h : m.Agrees m') : ClassFile.rename m = ClassFile.rename m' := by
  funext c
  simp only [ClassFile.rename, h.plan, h.renameDeclarations, h.classes]

end Agrees

end SymbolMapping

end Naming

end JarRefit
