import JarRefit.Naming.SymbolMapping
import JarRefit.Proofs.Naming.Enclosing
import JarRefit.Proofs.Naming.Structural

/-!
# The classes that a signature denotes

A class type denotes the class whose binary name its segments make up, whatever type arguments
stand between them. A renamed signature denotes the renamed classes as long as every nested class
in it stays nested in its outer class; where one does not, the signature denotes another class.

## Main definitions

* `Denotes`: the binary names that the class types of a signature denote, in their order.
* `StaysNested`: whether the new name of a nested class adds to the new name of its outer class.
-/
namespace JarRefit.Naming

/-! ## Class types -/

/-- The binary name of the last class behind a class whose name is given. -/
def InnerSegments.innermost (outer : String) : InnerSegments → String
  | .nil => outer
  | .cons name _ rest => rest.innermost (outer ++ "$" ++ name)

mutual

/-- The binary names of the class types in a type, in the order in which they start. -/
def TypeSig.classTypes : TypeSig → List String
  | .base _ | .variable _ => []
  | .array element => element.classTypes
  | .cls name args inner => inner.innermost name :: (args.classTypes ++ inner.classTypes)

def TypeArgs.classTypes : TypeArgs → List String
  | .absent => []
  | .present args => args.classTypes

def TypeArgList.classTypes : TypeArgList → List String
  | .nil => []
  | .any rest => rest.classTypes
  | .type _ t rest => t.classTypes ++ rest.classTypes

/-- The class types in the type arguments of nested classes. -/
def InnerSegments.classTypes : InnerSegments → List String
  | .nil => []
  | .cons _ args rest => args.classTypes ++ rest.classTypes

end

def SignaturePart.classTypes : SignaturePart → List String
  | .mark _ => []
  | .type t => t.classTypes

def TypeParameter.classTypes (p : TypeParameter) : List String :=
  p.bounds.flatMap fun bound => (bound.map TypeSig.classTypes).getD []

namespace Signature

def classTypes (s : Signature) : List String :=
  (s.parameters.getD []).flatMap TypeParameter.classTypes ++
    s.parts.flatMap SignaturePart.classTypes

/-- The characters that structure a signature. -/
def markup : List Char := ['.', ';', '<', '>', ':', '[']

/-- Whether none of the characters that structure a signature stands in a name. -/
def Unmarked (name : String) : Prop :=
  ∀ c ∈ name.toList, c ∉ markup

theorem Unmarked.unbroken {name : String} (h : Unmarked name) : Unbroken name :=
  fun c hc hstop => h c hc ((by decide : nameStops ⊆ markup) hstop)

end Signature

open Signature (Unmarked)

/-- Whether a text is a signature whose class types have these binary names. -/
def Denotes (text : String) (names : List String) : Prop :=
  ∃ s : Signature, s.Spelled Unmarked ∧ s.print = text.toList ∧ s.classTypes = names

/-- There is one way only to read a text as a signature. -/
theorem denotes_iff {s : Signature} (h : s.Spelled Unmarked) {names : List String} :
    Denotes (String.ofList s.print) names ↔ names = s.classTypes := by
  constructor
  · rintro ⟨s', h', hprint, rfl⟩
    rw [String.toList_ofList] at hprint
    rw [Signature.print_inj (fun _ => Unmarked.unbroken) h'.readable h.readable hprint]
  · rintro rfl
    exact ⟨s, h, String.toList_ofList.symm, rfl⟩

namespace Grammar

/-! ## Nested classes -/

mutual

/-- The classes in a type that are nested in another, each behind that one. -/
def ReferenceType.nestings : ReferenceType → List (String × String)
  | .cls name args inner => args.nestings ++ inner.nestings name.text
  | .typeVariable _ | .baseArray _ => []
  | .array element => element.nestings

def Arguments.nestings : Arguments → List (String × String)
  | .nil => []
  | .any rest => rest.nestings
  | .type _ t rest => t.nestings ++ rest.nestings

def Suffixes.nestings (outer : String) : Suffixes → List (String × String)
  | .nil => []
  | .cons name args rest =>
    (outer, nestedName outer name.text) ::
      (args.nestings ++ rest.nestings (nestedName outer name.text))

end

/-- The reference type that a type is, unless it is a base type. -/
def JavaType.types : JavaType → List ReferenceType
  | .base _ => []
  | .reference t => [t]

def TypeParameter.types (p : TypeParameter) : List ReferenceType :=
  p.classBound.toList ++ p.interfaceBounds

/-- The reference types behind the type parameters. -/
def Signature.bodyTypes : Signature → List ReferenceType
  | .cls _ superclass interfaces => (superclass :: interfaces).map ClassType.toReference
  | .method _ arguments result throws =>
    (arguments ++ result.toList).flatMap JavaType.types ++ throws.map Thrown.toReference
  | .field t => [t]

/-- The reference types of a signature, in their order. -/
def Signature.types (s : Signature) : List ReferenceType :=
  s.parameters.flatMap TypeParameter.types ++ s.bodyTypes

/-- The classes in a signature that are nested in another, each behind that one. -/
def Signature.nestings (s : Signature) : List (String × String) :=
  s.types.flatMap ReferenceType.nestings

/-- Whether the new name of a nested class adds to the new name of the class around it. -/
def StaysNested (f : String → String) (p : String × String) : Prop :=
  (f p.1 ++ "$").toList <+: (f p.2).toList

variable {f : String → String}

/-- The segment that is written for a nested class makes up its new name just if it stays nested. -/
theorem nestedName_segment_iff {outer own : String} :
    nestedName (f outer) ((Spelling.renamed f).segment outer own) = f (nestedName outer own) ↔
      StaysNested f (outer, nestedName outer own) := by
  constructor
  · intro h
    refine ⟨((Spelling.renamed f).segment outer own).toList, ?_⟩
    rw [← String.toList_append]
    exact congrArg String.toList h
  · rintro ⟨rest, hrest⟩
    have hfront : (f outer ++ "$").toList.isPrefixOf (f (nestedName outer own)).toList :=
      List.isPrefixOf_iff_prefix.2 ⟨rest, hrest⟩
    rw [Spelling.renamed]
    dsimp only
    rw [if_pos hfront, ← hrest, List.drop_left, nestedName, ← String.toList_inj]
    simpa using hrest

theorem Suffixes.innermost_tree {inner : Suffixes} {outer : String}
    (h : ∀ p ∈ inner.nestings outer, StaysNested f p) :
    (inner.tree (.renamed f) outer).innermost (f outer) =
      f ((inner.tree .plain outer).innermost outer) := by
  match inner with
  | .nil => rfl
  | .cons name args rest =>
    simp only [Suffixes.nestings, List.forall_mem_cons, List.forall_mem_append] at h
    obtain ⟨hname, -, hrest⟩ := h
    have hsegment : f outer ++ "$" ++ (Spelling.renamed f).segment outer name.text =
        f (nestedName outer name.text) := nestedName_segment_iff.2 hname
    rw [Suffixes.tree, Suffixes.tree, InnerSegments.innermost, InnerSegments.innermost, hsegment]
    exact Suffixes.innermost_tree hrest

theorem classTypes_optionalArgs (args : TypeArgList) :
    (optionalArgs args).classTypes = args.classTypes := by
  cases args <;> rfl

mutual

theorem ReferenceType.classTypes_tree {t : ReferenceType}
    (h : ∀ p ∈ t.nestings, StaysNested f p) :
    (t.tree (.renamed f)).classTypes = (t.tree .plain).classTypes.map f := by
  match t with
  | .cls name args inner =>
    rw [ReferenceType.nestings, List.forall_mem_append] at h
    have hinnermost := Suffixes.innermost_tree h.2
    have hargs := Arguments.classTypes_tree h.1
    have hinner := Suffixes.classTypes_tree h.2
    simp only [ReferenceType.tree, TypeSig.classTypes, classTypes_optionalArgs, List.map_cons,
      List.map_append, hargs, hinner]
    exact congrArg (· :: _) hinnermost
  | .typeVariable _ | .baseArray _ => rfl
  | .array element => exact ReferenceType.classTypes_tree (t := element) h

theorem Arguments.classTypes_tree {args : Arguments} (h : ∀ p ∈ args.nestings, StaysNested f p) :
    (args.tree (.renamed f)).classTypes = (args.tree .plain).classTypes.map f := by
  match args with
  | .nil => rfl
  | .any rest => exact rest.classTypes_tree h
  | .type _ t rest =>
    rw [Arguments.nestings, List.forall_mem_append] at h
    simp only [Arguments.tree, TypeArgList.classTypes, List.map_append,
      ReferenceType.classTypes_tree h.1, Arguments.classTypes_tree h.2]

theorem Suffixes.classTypes_tree {inner : Suffixes} {outer : String}
    (h : ∀ p ∈ inner.nestings outer, StaysNested f p) :
    (inner.tree (.renamed f) outer).classTypes = (inner.tree .plain outer).classTypes.map f := by
  match inner with
  | .nil => rfl
  | .cons name args rest =>
    simp only [Suffixes.nestings, List.forall_mem_cons, List.forall_mem_append] at h
    obtain ⟨-, hargs, hrest⟩ := h
    simp only [Suffixes.tree, InnerSegments.classTypes, classTypes_optionalArgs, List.map_append,
      Arguments.classTypes_tree hargs, Suffixes.classTypes_tree hrest]

end

/-! ## Signatures -/

variable {sp : Spelling}

theorem TypeParameter.classTypes_tree (p : TypeParameter) :
    (p.tree sp).classTypes = p.types.flatMap fun t => (t.tree sp).classTypes := by
  cases hbound : p.classBound <;>
    simp [TypeParameter.tree, Naming.TypeParameter.classTypes, TypeParameter.types, hbound,
      List.flatMap_map]

theorem JavaType.classTypes_tree (t : JavaType) :
    (t.tree sp).classTypes = t.types.flatMap fun t => (t.tree sp).classTypes := by
  cases t <;> simp [JavaType.tree, JavaType.types, TypeSig.classTypes]

theorem Signature.classTypes_parts (s : Signature) :
    (s.parts sp).flatMap SignaturePart.classTypes =
      s.bodyTypes.flatMap fun t => (t.tree sp).classTypes := by
  cases s with
  | method parameters arguments result throws =>
    cases result <;>
      simp [Signature.parts, Signature.bodyTypes, SignaturePart.classTypes, List.flatMap_map,
        List.flatMap_assoc, JavaType.classTypes_tree]
  | _ => simp [Signature.parts, Signature.bodyTypes, SignaturePart.classTypes, List.flatMap_map]

/-- The class types of a signature are those of the reference types in it. -/
theorem Signature.classTypes_tree (s : Signature) :
    (s.tree sp).classTypes = s.types.flatMap fun t => (t.tree sp).classTypes := by
  have hparameters : ((s.tree sp).parameters.getD []).flatMap Naming.TypeParameter.classTypes =
      (s.parameters.flatMap TypeParameter.types).flatMap fun t => (t.tree sp).classTypes := by
    cases hps : s.parameters with
    | nil => simp [Signature.tree, hps]
    | cons p ps =>
      simp [Signature.tree, hps, TypeParameter.classTypes_tree, List.flatMap_map,
        List.flatMap_assoc]
  rw [Naming.Signature.classTypes, hparameters, Signature.types, List.flatMap_append,
    ← s.classTypes_parts]
  rfl

/-- When every nested class stays nested, the class types of the renamed signature are the renamed
classes. -/
theorem Signature.classTypes_renamed {s : Signature} (h : ∀ p ∈ s.nestings, StaysNested f p) :
    (s.tree (.renamed f)).classTypes = (s.tree .plain).classTypes.map f := by
  rw [Signature.classTypes_tree, Signature.classTypes_tree, List.map_flatMap, List.flatMap_def,
    List.flatMap_def]
  refine congrArg List.flatten (List.map_congr_left fun t ht => ?_)
  exact ReferenceType.classTypes_tree fun p hp => h p (List.mem_flatMap.2 ⟨t, ht, hp⟩)

/-! ## Reading what was written -/

theorem plain_yields_unmarked : Spelling.plain.Yields Unmarked where
  outermost name := name.avoids (by decide) (by decide)
  segment _ own := own.avoids (by decide)

theorem renamed_yields (hf : ∀ name : ClassName, Unmarked (f name.text)) :
    (Spelling.renamed f).Yields Unmarked where
  outermost := hf
  segment outer own := by
    rw [Spelling.renamed]
    dsimp only
    split
    · intro c hc
      rw [String.toList_ofList, ← outer.text_nest own] at hc
      exact hf (outer.nest own) c (List.mem_of_mem_drop hc)
    · exact own.avoids (by decide)

theorem Signature.denotes_text {s : Signature} (hs : s.BoundsClosed) {names : List String} :
    Denotes s.text names ↔ names = (s.tree .plain).classTypes := by
  rw [Signature.text, ← s.print_tree]
  exact denotes_iff (s.spelled_tree plain_yields_unmarked hs)

theorem Signature.denotes_renamedText (hf : ∀ name : ClassName, Unmarked (f name.text))
    {s : Signature} (hs : s.BoundsClosed) {names : List String} :
    Denotes (s.renamed f) names ↔ names = (s.tree (.renamed f)).classTypes := by
  rw [Signature.renamed, ← s.print_tree]
  exact denotes_iff (s.spelled_tree (renamed_yields hf) hs)

/-! ## A nested class by itself -/

/-- The field signature of a class that is nested in another. -/
def nestedField (outer : ClassName) (own : Identifier) : Signature :=
  .field (.cls outer .nil (.cons own .nil .nil))

theorem boundsClosed_nestedField (outer : ClassName) (own : Identifier) :
    (nestedField outer own).BoundsClosed := by
  intro p hp
  cases hp

theorem write_nestedField (outer : ClassName) (own : Identifier) :
    String.ofList ((nestedField outer own).write sp) =
      "L" ++ sp.outermost outer.text ++ "." ++ sp.segment outer.text own.text ++ ";" := by
  rw [← String.toList_inj]
  simp [nestedField, Signature.write, ReferenceType.write, Suffixes.write, Arguments.write,
    bracketed]

theorem text_nestedField (outer : ClassName) (own : Identifier) :
    (nestedField outer own).text = "L" ++ outer.text ++ "." ++ own.text ++ ";" :=
  write_nestedField outer own

theorem classTypes_nestedField (outer : ClassName) (own : Identifier) :
    ((nestedField outer own).tree sp).classTypes =
      [nestedName (sp.outermost outer.text) (sp.segment outer.text own.text)] := by
  rfl

end Grammar

open Grammar

/-! ## New class names -/

theorem unmarked_append {front back : String} (hfront : Unmarked front) (hback : Unmarked back) :
    Unmarked (front ++ back) := by
  intro c hc
  rw [String.toList_append, List.mem_append] at hc
  exact hc.elim (hfront c) (hback c)

namespace SymbolMapping

variable {m : SymbolMapping}

/-- Whether the new names of classes and packages hold none of the characters that structure a
signature, the sign of the unnamed package apart. -/
structure UnmarkedEntries (m : SymbolMapping) : Prop where
  classes : ∀ old new : String, m.classes[old]? = some new → Unmarked new
  packages : ∀ old new : String, m.packages[old]? = some new →
    new = defaultPackage ∨ Unmarked new

theorem UnmarkedEntries.relocate (hm : m.UnmarkedEntries) {cls : String} (hcls : Unmarked cls) :
    Unmarked (m.relocate cls) := by
  have hsimple : Unmarked (splitPackage cls).2 := by
    unfold splitPackage
    split
    · next before after hcut =>
      intro c hc
      rw [String.toList_ofList] at hc
      exact hcls c (by simp [(Text.cutLast?_eq_some hcut).1, hc])
    · exact hcls
  unfold SymbolMapping.relocate
  dsimp only
  split
  · next new hnew =>
    split
    · exact hsimple
    · next hne =>
      have hslash : Unmarked "/" := by simp [Signature.Unmarked, Signature.markup]
      exact unmarked_append (unmarked_append ((hm.packages _ _ hnew).resolve_left hne) hslash)
        hsimple
  · exact hcls

/-- Entries without characters that structure a signature bring none into the name of a class. -/
theorem UnmarkedEntries.renameClass (hm : m.UnmarkedEntries) {cls : String} (hcls : Unmarked cls) :
    Unmarked (m.renameClass cls) := by
  fun_induction SymbolMapping.renameClass m cls with
  | case1 cls new hnew => exact hm.classes cls new hnew
  | case2 cls => exact hcls
  | case3 cls hnone before inner hcut outer newOuter hne ih =>
    have hsplit := (Text.cutLast?_eq_some hcut).1
    have hpart : ∀ part : List Char, (∀ c ∈ part, c ∈ cls.toList) → Unmarked (String.ofList part) :=
      fun part hpart c hc => hcls c (hpart c (by rwa [String.toList_ofList] at hc))
    have hdollar : Unmarked "$" := by simp [Signature.Unmarked, Signature.markup]
    refine unmarked_append (unmarked_append (ih (hpart before fun c hc => ?_)) hdollar)
      (hpart inner fun c hc => ?_) <;> simp [hsplit, hc]
  | case4 cls => exact hm.relocate hcls

end SymbolMapping

/-! ## Renamed signatures -/

/-- Reading a signature and its renamed text gives one list of class names each, which stand for
each other if all nested classes in the signature stay nested. A nested class that does not stay
nested is denoted by a name that is not its new one. -/
theorem denotes_renamed {m : SymbolMapping}
    (hm : ∀ name : ClassName, Unmarked (m.renameClass name.text)) :
    (∀ s : Grammar.Signature, s.BoundsClosed → ∃ t old new,
      m.renameSignature? s.text = some t ∧ (∀ names, Denotes s.text names ↔ names = old) ∧
        (∀ names, Denotes t names ↔ names = new) ∧
          ((∀ p ∈ s.nestings, StaysNested m.renameClass p) → new = old.map m.renameClass)) ∧
    ∀ (outer : ClassName) (own : Identifier),
      ¬ StaysNested m.renameClass (outer.text, nestedName outer.text own.text) →
        ∃ s t new, s = "L" ++ outer.text ++ "." ++ own.text ++ ";" ∧
          m.renameSignature? s = some t ∧ Denotes s [nestedName outer.text own.text] ∧
            Denotes t [new] ∧ new ≠ m.renameClass (nestedName outer.text own.text) := by
  constructor
  · intro s hs
    exact ⟨_, _, _, s.rename?_of_parse? m.renameClass (s.parse?_text hs),
      fun _ => Signature.denotes_text hs, fun _ => Signature.denotes_renamedText hm hs,
      Signature.classTypes_renamed⟩
  · intro outer own hnested
    have hs := boundsClosed_nestedField outer own
    refine ⟨_, _, _, text_nestedField outer own,
      Signature.rename?_of_parse? m.renameClass (Signature.parse?_text hs),
      (Signature.denotes_text hs).2 rfl, (Signature.denotes_renamedText hm hs).2 rfl, ?_⟩
    exact fun h => hnested (nestedName_segment_iff.1 h)

/-! ### A nested class that leaves its outer class -/

/-- New names under which `b$c` is no longer nested in `b`. -/
def uprooted : SymbolMapping :=
  (SymbolMapping.empty.addClass "b" "x").addClass "b$c" "y"

theorem renameClass_uprooted_outer : uprooted.renameClass "b" = "x" := by
  apply SymbolMapping.renameClass_of_entry
  simp [uprooted, SymbolMapping.addClass, SymbolMapping.empty, Std.HashMap.getElem_insertIfNew]

theorem renameClass_uprooted_nested : uprooted.renameClass "b$c" = "y" := by
  apply SymbolMapping.renameClass_of_entry
  simp [uprooted, SymbolMapping.addClass, SymbolMapping.empty, Std.HashMap.getElem_insertIfNew]

theorem unmarked_uprooted (name : ClassName) : Unmarked (uprooted.renameClass name.text) := by
  have hentries : uprooted.UnmarkedEntries := by
    refine ⟨fun old new hnew => ?_, fun old new hnew => ?_⟩
    · have hnew : new = "x" ∨ new = "y" := by
        simp only [uprooted, SymbolMapping.addClass, SymbolMapping.empty,
          Std.HashMap.getElem?_insertIfNew] at hnew
        grind
      rcases hnew with rfl | rfl <;> simp [Signature.Unmarked, Signature.markup]
    · simp [uprooted, SymbolMapping.addClass, SymbolMapping.empty] at hnew
  exact hentries.renameClass (name.avoids (by decide) (by decide))

/-- The class `b$c`, whose new name is `y`, is denoted by `x$c`. -/
theorem denotes_uprooted :
    ∃ s : Grammar.Signature, s.BoundsClosed ∧ s.text = "Lb.c;" ∧
      uprooted.renameSignature? s.text = some "Lx.c;" ∧ Denotes s.text ["b$c"] ∧
        Denotes "Lx.c;" ["x$c"] := by
  let outer : ClassName := ⟨[], ⟨"b", by decide, by simp [reserved]⟩⟩
  let own : Identifier := ⟨"c", by decide, by simp [reserved]⟩
  have hs := boundsClosed_nestedField outer own
  have houter : (Spelling.renamed uprooted.renameClass).outermost outer.text = "x" :=
    renameClass_uprooted_outer
  have hsegment : (Spelling.renamed uprooted.renameClass).segment outer.text own.text = "c" := by
    have hnested : uprooted.renameClass (nestedName outer.text own.text) = "y" :=
      renameClass_uprooted_nested
    have hfront : uprooted.renameClass outer.text = "x" := renameClass_uprooted_outer
    simp only [Spelling.renamed, hnested, hfront]
    decide
  have hrenamed : (nestedField outer own).renamed uprooted.renameClass = "Lx.c;" := by
    rw [Signature.renamed, write_nestedField, houter, hsegment]
    decide
  refine ⟨nestedField outer own, hs, by decide, ?_, (Signature.denotes_text hs).2 ?_, ?_⟩
  · rw [← hrenamed]
    exact Signature.rename?_of_parse? _ (Signature.parse?_text hs)
  · rfl
  · rw [← hrenamed, Signature.denotes_renamedText unmarked_uprooted hs, classTypes_nestedField,
      houter, hsegment]
    decide

/-- A renamed signature need not denote the renamed classes. -/
theorem not_denotes_renamed :
    ¬ ∀ m : SymbolMapping, (∀ name : ClassName, Unmarked (m.renameClass name.text)) →
      ∀ (s : Grammar.Signature) (t : String) (old new : List String),
        m.renameSignature? s.text = some t → Denotes s.text old → Denotes t new →
          new = old.map m.renameClass := by
  intro h
  obtain ⟨s, -, -, hrenamed, hold, hnew⟩ := denotes_uprooted
  have hsame := h uprooted unmarked_uprooted s _ _ _ hrenamed hold hnew
  rw [List.map_singleton, renameClass_uprooted_nested] at hsame
  exact absurd hsame (by decide)

/-! ### A nested class that stays -/

/-- The class `b$d` has no entry and follows its outer class. -/
theorem renameClass_uprooted_following : uprooted.renameClass "b$d" = "x$d" := by
  have hentry : uprooted.classes[nestedName "b" "d"]? = none := by
    simp [uprooted, SymbolMapping.addClass, SymbolMapping.empty, nestedName]
  have hnested := SymbolMapping.renameClass_nestedName hentry (by decide)
  rw [renameClass_uprooted_outer] at hnested
  exact hnested

/-- A class with two type parameters, of which the first has no class bound. The class `b$d`, which
stays nested, bounds the second one and is the superclass. -/
theorem exists_boundedClass :
    ∃ s : Grammar.Signature, s.text = "<A::Lb;B:Lb.d;>Lb<TA;>.d;" ∧ s.BoundsClosed ∧
      (∀ p ∈ s.nestings, StaysNested uprooted.renameClass p) ∧
      (s.tree .plain).classTypes = ["b", "b$d", "b$d"] ∧
      s.renamed uprooted.renameClass = "<A::Lx;B:Lx.d;>Lx<TA;>.d;" := by
  let b : ClassName := ⟨[], ⟨"b", by decide, by simp [reserved]⟩⟩
  let d : Identifier := ⟨"d", by decide, by simp [reserved]⟩
  let first : Identifier := ⟨"A", by decide, by simp [reserved]⟩
  let second : Identifier := ⟨"B", by decide, by simp [reserved]⟩
  let s : Grammar.Signature :=
    .cls [⟨first, none, [.cls b .nil .nil]⟩, ⟨second, some (.cls b .nil (.cons d .nil .nil)), []⟩]
      ⟨b, .type none (.typeVariable first) .nil, .cons d .nil .nil⟩ []
  have hnested : uprooted.renameClass (nestedName "b" "d") = "x$d" :=
    renameClass_uprooted_following
  have hnestings : s.nestings = [("b", "b$d"), ("b", "b$d")] := rfl
  have hstays : StaysNested uprooted.renameClass ("b", "b$d") := by
    rw [StaysNested, renameClass_uprooted_outer, renameClass_uprooted_following]
    decide
  refine ⟨s, by decide, ?_, by simp [hnestings, hstays], rfl, ?_⟩
  · simp [Grammar.Signature.BoundsClosed, Grammar.Signature.parameters, s]
  · rw [← String.toList_inj]
    simp [s, b, d, first, second, Grammar.Signature.renamed, Grammar.Signature.write,
      TypeParameter.write, ReferenceType.write, Suffixes.write, Arguments.write, bracketed,
      Spelling.renamed, ClassName.text, ClassType.toReference, renameClass_uprooted_outer, hnested]

theorem denotes_renamed_uprooted :
    (∀ name : ClassName, Unmarked (uprooted.renameClass name.text)) ∧
      (∃ s : Grammar.Signature, s.text = "<A::Lb;B:Lb.d;>Lb<TA;>.d;" ∧ s.BoundsClosed ∧
        (∀ p ∈ s.nestings, StaysNested uprooted.renameClass p) ∧
        uprooted.renameSignature? s.text = some "<A::Lx;B:Lx.d;>Lx<TA;>.d;" ∧
        Denotes s.text ["b", "b$d", "b$d"] ∧
        Denotes "<A::Lx;B:Lx.d;>Lx<TA;>.d;" ["x", "x$d", "x$d"]) ∧
      ¬ StaysNested uprooted.renameClass ("b", "b$c") ∧
      ∃ t new, uprooted.renameSignature? "Lb.c;" = some t ∧ Denotes "Lb.c;" ["b$c"] ∧
        Denotes t [new] ∧ new ≠ "y" := by
  obtain ⟨s, htext, hs, hstays, htypes, hwritten⟩ := exists_boundedClass
  obtain ⟨hstaying, hleaving⟩ := denotes_renamed unmarked_uprooted
  have hloose : ¬ StaysNested uprooted.renameClass ("b", "b$c") := by
    rw [StaysNested, renameClass_uprooted_outer, renameClass_uprooted_nested]
    decide
  have hrenamed : uprooted.renameSignature? s.text = some "<A::Lx;B:Lx.d;>Lx<TA;>.d;" := by
    rw [← hwritten]
    exact s.rename?_text _ hs
  have hdenotes : Denotes s.text ["b", "b$d", "b$d"] :=
    (Signature.denotes_text hs).2 htypes.symm
  obtain ⟨t, old, new, ht, hold, hnew, hmapped⟩ := hstaying s hs
  obtain rfl : "<A::Lx;B:Lx.d;>Lx<TA;>.d;" = t := Option.some.inj (hrenamed.symm.trans ht)
  obtain rfl : ["b", "b$d", "b$d"] = old := (hold _).1 hdenotes
  have hnames : ["x", "x$d", "x$d"] = new := by
    rw [hmapped hstays]
    simp [renameClass_uprooted_outer, renameClass_uprooted_following]
  obtain ⟨loose, t, other, hloosetext, ht', hloosedenotes, hother, hne⟩ := hleaving
    ⟨[], ⟨"b", by decide, by simp [reserved]⟩⟩ ⟨"c", by decide, by simp [reserved]⟩ hloose
  obtain rfl : "Lb.c;" = loose := hloosetext.symm
  refine ⟨unmarked_uprooted, ⟨s, htext, hs, hstays, hrenamed, hdenotes, (hnew _).2 hnames⟩, hloose,
    t, other, ht', hloosedenotes, hother, fun hy => hne ?_⟩
  exact hy.trans renameClass_uprooted_nested.symm

end JarRefit.Naming
