import JarRefit.Proofs.Archive.Order
import JarRefit.Proofs.Naming.Resolution

/-!
# Resolution along the classes of an archive

In the hierarchy that an archive declares, the parents of a class are its superclass and then its
interfaces. So a member gets the nearest entry on the way up the superclasses, if there is one,
before any that only an interface gives.

## Main definitions

* `FileOf`: the class file that counts for a class.
* `IsSuperclass`: the superclass that this class file names.
* `NamesParents`: the superclass and the interfaces that a class file names, in this order.
* `SymbolMapping.Resolves`: the order in which the entries for a member count.
-/
namespace JarRefit.Archive

open ClassFile Naming

variable {entries before after : List Entry} {name super : String} {parents : List String}
  {c : ClassFile}

/-- Of the class files that tell the parents of a class, the last one. -/
def FileOf (entries : List Entry) (name : String) (c : ClassFile) : Prop :=
  ∃ before e after parents, entries = before ++ e :: after ∧ e.isClass = true ∧
    decode e.data = .ok c ∧ declaredParents c = .ok (name, parents) ∧
    ∀ e' ∈ after, ∀ parents', entryParents e' ≠ .ok (some (name, parents'))

/-- The class file that counts for the first class names the second one as its superclass. -/
def IsSuperclass (entries : List Entry) (name super : String) : Prop :=
  ∃ c, FileOf entries name c ∧ c.superName = .ok (some super)

/-- The parents that a class file names: its superclass, if it has one, and then its interfaces in
their order. -/
inductive NamesParents (c : ClassFile) : List String → Prop where
  | root {interfaces : List String} (hroot : c.superClass = 0)
      (hinterfaces : List.Forall₂ (fun i name => c.pool.className i = .ok name)
        c.interfaces interfaces) : NamesParents c interfaces
  | child {super : String} {interfaces : List String} (hchild : c.superClass ≠ 0)
      (hsuper : c.pool.className c.superClass = .ok super)
      (hinterfaces : List.Forall₂ (fun i name => c.pool.className i = .ok name)
        c.interfaces interfaces) : NamesParents c (super :: interfaces)

/-- Entries that do not tell the parents of a class leave what the table has for it. -/
theorem getElem?_parentTable_append
    (h : ∀ e ∈ after, ∀ parents, entryParents e ≠ .ok (some (name, parents))) :
    (parentTable (before ++ after))[name]? = (parentTable before)[name]? := by
  induction after using List.reverseRecOn with
  | nil => rw [List.append_nil]
  | append_singleton after e ih =>
    have ih := ih fun e' he' => h e' (List.mem_append_left _ he')
    rw [← List.append_assoc, parentTable_concat]
    split
    · next declared parents he =>
      have hne : declared ≠ name := by
        rintro rfl
        exact h e (by simp) parents he
      rw [Std.HashMap.getElem?_insert, beq_false_of_ne hne, ih]
      rfl
    · exact ih

theorem namesParents_of_declaredParents (h : declaredParents c = .ok (name, parents)) :
    NamesParents c parents := by
  obtain ⟨super?, hsuper, hrest⟩ := except_bind_eq_ok_iff.1 h
  obtain ⟨interfaces, hinterfaces, hrest⟩ := except_bind_eq_ok_iff.1 hrest
  obtain ⟨_, -, hrest⟩ := except_bind_eq_ok_iff.1 hrest
  cases hrest
  have hinterfaces := mapM_eq_ok_iff.1 hinterfaces
  unfold superName at hsuper
  split at hsuper
  · next hroot =>
    cases hsuper
    exact .root hroot hinterfaces
  · next hchild =>
    obtain ⟨super, hname, rfl⟩ := except_map_eq_ok_iff.1 hsuper
    exact .child hchild hname hinterfaces

/-- The parents of a class are those that its file names. -/
theorem FileOf.namesParents (h : FileOf entries name c) :
    NamesParents c ((⟨[parentTable entries]⟩ : Hierarchy).parents name) := by
  obtain ⟨before, e, after, parents, rfl, hcls, hdecode, hparents, hlast⟩ := h
  have he : entryParents e = .ok (some (name, parents)) := by
    rw [entryParents, if_pos hcls, hdecode]
    simp [bind, Except.bind, hparents, Functor.map, Except.map]
  have htable : (parentTable (before ++ e :: after))[name]? = some parents := by
    rw [List.append_cons, getElem?_parentTable_append hlast, parentTable_concat, he]
    simp
  have hnames := namesParents_of_declaredParents hparents
  simpa [Hierarchy.parents, Hierarchy.parents?, htable] using hnames

theorem IsSuperclass.parents_eq (h : IsSuperclass entries name super) :
    ∃ rest, (⟨[parentTable entries]⟩ : Hierarchy).parents name = super :: rest := by
  obtain ⟨c, hfile, hsuper⟩ := h
  have hnames := hfile.namesParents
  unfold superName at hsuper
  generalize (⟨[parentTable entries]⟩ : Hierarchy).parents name = parents at hnames ⊢
  cases hnames with
  | root hroot =>
    rw [if_pos hroot] at hsuper
    cases hsuper
  | @child _ interfaces hchild hname =>
    rw [if_neg hchild, hname] at hsuper
    cases hsuper
    exact ⟨interfaces, rfl⟩

end JarRefit.Archive

namespace JarRefit.Naming.SymbolMapping

open Archive ClassFile Hierarchy

variable {m : SymbolMapping}

/-- The order in which the entries for a member count: that of the class itself, or else the first
one that a parent gives. In the hierarchy of an archive the parents of a class are its superclass
and then its interfaces, and the nearest entry among the class and its superclasses comes before all
others. -/
structure Resolves (m : SymbolMapping) (lookup? find? : String → Option String) (owner : String) :
    Prop where
  recursive : find? owner = (lookup? owner).or ((m.ancestry.parents owner).findSome? find?)
  parents : ∀ entries, m.hierarchy = some ⟨[parentTable entries]⟩ →
    ∀ cls c, FileOf entries cls c → NamesParents c (m.ancestry.parents cls)
  superclasses : ∀ entries, m.hierarchy = some ⟨[parentTable entries]⟩ →
    ∀ a, Relation.ReflTransGen (IsSuperclass entries) owner a → (lookup? a).isSome →
      (∃ n, Nearest (IsSuperclass entries) lookup? owner n) ∧
        ∀ n, Nearest (IsSuperclass entries) lookup? owner n → find? owner = lookup? n

theorem ancestry_eq {h : Hierarchy} (hh : m.hierarchy = some h) : m.ancestry = h := by
  rw [ancestry, hh]
  rfl

theorem resolves_find? (hacyclic : m.ancestry.Acyclic) (lookup? : String → Option String)
    (owner : String) : m.Resolves lookup? (m.ancestry.find? lookup?) owner where
  recursive := hacyclic.find?_eq owner
  parents _ hentries _ _ hfile := ancestry_eq hentries ▸ hfile.namesParents
  superclasses _ hentries _ hline ha := ⟨exists_nearest hline ha, fun _ hn =>
    hacyclic.find?_eq_of_nearest (fun h => ancestry_eq hentries ▸ h.parents_eq) hn⟩

/-- In an acyclic hierarchy the new name of a member follows the recursive order of resolution. -/
theorem resolves_renamed (hacyclic : m.ancestry.Acyclic) (owner name descriptor : String) :
    m.Resolves (m.fieldEntry? name) (m.renameField? · name) owner ∧
      (isReserved name = false →
        m.Resolves (m.methodEntry? name descriptor) (m.renameMethod? · name descriptor) owner) := by
  refine ⟨resolves_find? hacyclic _ owner, fun hname => ?_⟩
  have hmethod : (m.renameMethod? · name descriptor) =
      m.ancestry.find? (m.methodEntry? name descriptor) := by
    funext cls
    rw [renameMethod?, hname, if_neg Bool.false_ne_true]
    rfl
  rw [hmethod]
  exact resolves_find? hacyclic _ owner

/-! ### A shared interface -/

/-- A class with a superclass and an interface. -/
def childClass (name superName interface : String) : ClassFile where
  minorVersion := 0
  majorVersion := 52
  pool := ⟨#[.unusable, .utf8 (Utf8.encode name), .classRef 1, .utf8 (Utf8.encode superName),
    .classRef 3, .utf8 (Utf8.encode interface), .classRef 5]⟩
  access := ⟨1⟩
  thisClass := 2
  superClass := 4
  interfaces := [6]
  fields := []
  methods := []
  attributes := []

theorem superName_childClass (name superName interface : String) :
    (childClass name superName interface).superName = .ok (some superName) := by
  have hsuper : (childClass name superName interface).pool.className 4 = .ok superName := by
    simp [childClass, ConstantPool.className_eq_ok_iff, ConstantPool.text_eq_ok_iff]
  exact congrArg (some <$> ·) hsuper

theorem declaredParents_childClass (name superName interface : String) :
    declaredParents (childClass name superName interface) =
      .ok (name, [superName, interface]) := by
  have hname : (childClass name superName interface).name = .ok name := by
    simp [ClassFile.name, childClass, ConstantPool.className_eq_ok_iff,
      ConstantPool.text_eq_ok_iff]
  have hinterface : (childClass name superName interface).pool.className 6 = .ok interface := by
    simp [childClass, ConstantPool.className_eq_ok_iff, ConstantPool.text_eq_ok_iff]
  have hinterfaces : (childClass name superName interface).interfaceNames = .ok [interface] := by
    simp [interfaceNames, show (childClass name superName interface).interfaces = [6] from rfl,
      hinterface, bind, Except.bind, pure, Except.pure]
  simp [declaredParents, superName_childClass, hinterfaces, hname, bind, Except.bind, pure,
    Except.pure]

def childFile (name superName interface : String) : Entry :=
  .file (name ++ classSuffix) (childClass name superName interface).encode heirTime

theorem entryParents_childFile {name superName interface : String}
    (hdecode : decode (childClass name superName interface).encode =
      .ok (childClass name superName interface)) :
    entryParents (childFile name superName interface) =
      .ok (some (name, [superName, interface])) := by
  have hcls : (childFile name superName interface).isClass = true :=
    Entry.isClass_iff.2 ⟨rfl, name, rfl⟩
  have hdecode : decode (childFile name superName interface).data =
      .ok (childClass name superName interface) := hdecode
  rw [entryParents, if_pos hcls, hdecode]
  simp [bind, Except.bind, declaredParents_childClass, Functor.map, Except.map]

/-- The class `f`, its superclass `g` and, not in the archive, the superclass `b` of `g`. Both `f`
and `g` have the interface `i`. -/
def family : List Entry :=
  [childFile "f" "g" "i", childFile "g" "b" "i"]

theorem fileOf_family :
    FileOf family "f" (childClass "f" "g" "i") ∧ FileOf family "g" (childClass "g" "b" "i") := by
  have hlast : ∀ e ∈ [childFile "g" "b" "i"], ∀ parents,
      entryParents e ≠ .ok (some ("f", parents)) := by
    simp [entryParents_childFile (show decode (childClass "g" "b" "i").encode = _ from rfl)]
  exact ⟨⟨[], _, _, _, rfl, by decide, rfl, declaredParents_childClass .., hlast⟩,
    ⟨[_], _, [], _, rfl, by decide, rfl, declaredParents_childClass .., by simp⟩⟩

theorem isSuperclass_family :
    IsSuperclass family "f" "g" ∧ IsSuperclass family "g" "b" :=
  ⟨⟨_, fileOf_family.1, superName_childClass ..⟩, ⟨_, fileOf_family.2, superName_childClass ..⟩⟩

/-- Entries for a field in `b` and in `i`. -/
def familyMapping : SymbolMapping :=
  { (SymbolMapping.empty.addField "i" "x" "field_2").addField "b" "x" "field_1" with
    hierarchy := some ⟨[parentTable family]⟩ }

theorem fieldEntry_familyMapping (cls : String) : familyMapping.fieldEntry? "x" cls =
    if cls = "i" then some "field_2" else if cls = "b" then some "field_1" else none := by
  have hkey {a : String} : fieldKey a "x" = fieldKey cls "x" ↔ cls = a := by
    simp [fieldKey, eq_comm]
  simp only [familyMapping, fieldEntry?, addField, SymbolMapping.empty,
    Std.HashMap.getElem?_insertIfNew, beq_iff_eq, hkey, Std.HashMap.mem_insertIfNew,
    Std.HashMap.not_mem_empty, or_false, not_false_eq_true, and_true, getElem?_neg]
  grind

theorem parents_familyMapping (cls : String) : familyMapping.ancestry.parents cls =
    if cls = "g" then ["b", "i"] else if cls = "f" then ["g", "i"] else [] := by
  have htable : parentTable family =
      ((∅ : ParentTable).insert "f" ["g", "i"]).insert "g" ["b", "i"] := by
    simp [parentTable, family,
      entryParents_childFile (show decode (childClass "f" "g" "i").encode = _ from rfl),
      entryParents_childFile (show decode (childClass "g" "b" "i").encode = _ from rfl)]
  have hancestry : familyMapping.ancestry = ⟨[parentTable family]⟩ := rfl
  simp only [hancestry, parents, parents?, htable, List.findSome?_cons, List.findSome?_nil,
    Std.HashMap.getElem?_insert, beq_iff_eq]
  grind

theorem acyclic_familyMapping : familyMapping.ancestry.Acyclic := by
  refine acyclic_of_rank (fun cls => if cls = "f" then 2 else if cls = "g" then 1 else 0) ?_
  intro cls p hp
  rw [parents_familyMapping] at hp
  grind

/-- The class has its superclass and then its interface as parents. The field has its entry from the
superclass of the superclass, not from the interface, which is nearer. -/
theorem resolves_renamed_familyMapping :
    familyMapping.ancestry.Acyclic ∧ isReserved "run" = false ∧
      familyMapping.Resolves (familyMapping.fieldEntry? "x") (familyMapping.renameField? · "x")
        "f" ∧
      familyMapping.Resolves (familyMapping.methodEntry? "run" "()V")
        (familyMapping.renameMethod? · "run" "()V") "f" ∧
      familyMapping.ancestry.parents "f" = ["g", "i"] ∧
      NamesParents (childClass "f" "g" "i") ["g", "i"] ∧
      IsSuperclass family "f" "g" ∧ IsSuperclass family "g" "b" ∧
      familyMapping.renameField? "f" "x" = some "field_1" := by
  obtain ⟨hfg, hgb⟩ := isSuperclass_family
  have hnearest : Nearest (IsSuperclass family) (familyMapping.fieldEntry? "x") "f" "b" :=
    .above (by simp [fieldEntry_familyMapping]) hfg (.above (by simp [fieldEntry_familyMapping]) hgb
      (.own (by simp [fieldEntry_familyMapping])))
  obtain ⟨hfield, -⟩ := resolves_renamed acyclic_familyMapping "f" "x" "()V"
  have hmethod := (resolves_renamed acyclic_familyMapping "f" "run" "()V").2 (by decide)
  obtain ⟨-, hwins⟩ := hfield.superclasses family rfl "b" (.tail (.single hfg) hgb)
    (by simp [fieldEntry_familyMapping])
  have hparents : familyMapping.ancestry.parents "f" = ["g", "i"] := by
    rw [parents_familyMapping]
    decide
  have hnames := hfield.parents family rfl "f" _ fileOf_family.1
  rw [hparents] at hnames
  refine ⟨acyclic_familyMapping, by decide, hfield, hmethod, hparents, hnames, hfg, hgb, ?_⟩
  rw [hwins "b" hnearest, fieldEntry_familyMapping]
  rfl

end JarRefit.Naming.SymbolMapping
