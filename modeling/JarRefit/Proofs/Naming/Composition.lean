import JarRefit.Proofs.Naming.Accepting
import JarRefit.Proofs.Naming.Descriptor
import JarRefit.Proofs.Text.Split

/-!
# Renaming twice

Two renamings in turn are one: classes that get new names and then newer ones get the newer ones at
once. In descriptors that takes new names that do not close a class type. In signatures they must be
names that can be read, and every nested class must stay nested, in the first step and in both
together; then the segments that are written for nested classes are read back as they are.

## Main definitions

* `Signature.KeepsNesting`: new names under which every nested class stays nested.
-/
namespace JarRefit.Naming

variable {f g : String → String}

/-! ## Descriptors -/

namespace Descriptor

theorem renameChars_renameChars (hf : ∀ name : String, ';' ∉ name.toList → ';' ∉ (f name).toList)
    (cs : List Char) : renameChars g (renameChars f cs) = renameChars (g ∘ f) cs := by
  fun_induction names cs with
  | case1 cs hcut => rw [renameChars_of_no_class hcut, renameChars_of_no_class hcut,
      renameChars_of_no_class hcut]
  | case2 cs before after hcut hopen => rw [renameChars_of_open_class hcut hopen,
      renameChars_of_open_class hcut hopen, renameChars_of_open_class hcut hopen]
  | case3 cs before after hcut name rest hclosed ih =>
    have hbefore : 'L' ∉ before := (Text.cut?_eq_some hcut).2
    have hname : ';' ∉ (f (String.ofList name)).toList :=
      hf _ (by simpa using (Text.cut?_eq_some hclosed).2)
    rw [renameChars_of_class hcut hclosed, renameChars_of_class hcut hclosed,
      renameChars_of_class (Text.cut?_append hbefore) (Text.cut?_append hname), ih,
      String.ofList_toList]
    rfl

end Descriptor

/-! ## Nested classes -/

open Signature (Named)

namespace Signature

/-- Whether the new name of every nested class adds a segment to the new name of the class around
it. -/
def KeepsNesting (f : String → String) : Prop :=
  ∀ outer own, Named outer → Named own →
    ∃ segment, segment ≠ "" ∧ f (outer ++ "$" ++ own) = f outer ++ "$" ++ segment

theorem Named.nest {outer own : String} (houter : Named outer) (hown : Named own) :
    Named (outer ++ "$" ++ own) := by
  refine ⟨by simp, fun c hc => ?_⟩
  simp only [String.toList_append, List.mem_append] at hc
  rcases hc with (hc | hc) | hc
  · exact houter.2 c hc
  · obtain rfl : c = '$' := by simpa using hc
    decide
  · exact hown.2 c hc

theorem Named.of_nest {outer segment : String} (hsegment : segment ≠ "")
    (h : Named (outer ++ "$" ++ segment)) : Named segment :=
  ⟨hsegment, fun c hc => h.2 c (by simp [hc])⟩

end Signature

open Signature (KeepsNesting)

/-! ## Renamed types can be read -/

mutual

theorem TypeSig.spelled_rename (hf : ∀ name, Named name → Named (f name)) (hnest : KeepsNesting f)
    (t : TypeSig) (ht : t.Spelled Named) : (t.rename f).Spelled Named := by
  match t with
  | .base _ | .variable _ => exact ht
  | .array element => exact element.spelled_rename hf hnest ht
  | .cls name args inner =>
    obtain ⟨hname, hargs, hinner⟩ := ht
    exact ⟨hf name hname, args.spelled_rename hf hnest hargs,
      inner.spelled_rename hf hnest hinner hname⟩

theorem TypeArgs.spelled_rename (hf : ∀ name, Named name → Named (f name))
    (hnest : KeepsNesting f) (args : TypeArgs) (h : args.Spelled Named) :
    (args.rename f).Spelled Named := by
  match args with
  | .absent => trivial
  | .present args => exact args.spelled_rename hf hnest h

theorem TypeArgList.spelled_rename (hf : ∀ name, Named name → Named (f name))
    (hnest : KeepsNesting f) (args : TypeArgList) (h : args.Spelled Named) :
    (args.rename f).Spelled Named := by
  match args with
  | .nil => trivial
  | .any rest => exact rest.spelled_rename hf hnest h
  | .type _ t rest =>
    obtain ⟨hbound, ht, hrest⟩ := h
    exact ⟨hbound, t.spelled_rename hf hnest ht, rest.spelled_rename hf hnest hrest⟩

theorem InnerSegments.spelled_rename (hf : ∀ name, Named name → Named (f name))
    (hnest : KeepsNesting f) (inner : InnerSegments) (h : inner.Spelled Named) {old : String}
    (hold : Named old) : (inner.rename f old (f old)).Spelled Named := by
  match inner with
  | .nil => trivial
  | .cons name args rest =>
    obtain ⟨hname, hargs, hrest⟩ := h
    obtain ⟨segment, hne, hsegment⟩ := hnest old name hold hname
    have hnested := hf _ (hold.nest hname)
    rw [InnerSegments.rename_cons args rest hsegment]
    rw [hsegment] at hnested
    exact ⟨hnested.of_nest hne, args.spelled_rename hf hnest hargs,
      rest.spelled_rename hf hnest hrest (hold.nest hname)⟩

end

/-! ## Two renamings are one -/

mutual

theorem TypeSig.rename_rename (hnest : KeepsNesting f) (hboth : KeepsNesting (g ∘ f)) (t : TypeSig)
    (ht : t.Spelled Named) : (t.rename f).rename g = t.rename (g ∘ f) := by
  match t with
  | .base _ | .variable _ => rfl
  | .array element =>
    rw [TypeSig.rename, TypeSig.rename, element.rename_rename hnest hboth ht, TypeSig.rename]
  | .cls name args inner =>
    obtain ⟨hname, hargs, hinner⟩ := ht
    rw [TypeSig.rename, TypeSig.rename, args.rename_rename hnest hboth hargs,
      inner.rename_rename hnest hboth hinner hname, TypeSig.rename]
    rfl

theorem TypeArgs.rename_rename (hnest : KeepsNesting f) (hboth : KeepsNesting (g ∘ f))
    (args : TypeArgs) (h : args.Spelled Named) :
    (args.rename f).rename g = args.rename (g ∘ f) := by
  match args with
  | .absent => rfl
  | .present args =>
    rw [TypeArgs.rename, TypeArgs.rename, args.rename_rename hnest hboth h, TypeArgs.rename]

theorem TypeArgList.rename_rename (hnest : KeepsNesting f) (hboth : KeepsNesting (g ∘ f))
    (args : TypeArgList) (h : args.Spelled Named) :
    (args.rename f).rename g = args.rename (g ∘ f) := by
  match args with
  | .nil => rfl
  | .any rest =>
    rw [TypeArgList.rename, TypeArgList.rename, rest.rename_rename hnest hboth h,
      TypeArgList.rename]
  | .type _ t rest =>
    rw [TypeArgList.rename, TypeArgList.rename, t.rename_rename hnest hboth h.2.1,
      rest.rename_rename hnest hboth h.2.2, TypeArgList.rename]

theorem InnerSegments.rename_rename (hnest : KeepsNesting f) (hboth : KeepsNesting (g ∘ f))
    (inner : InnerSegments) (h : inner.Spelled Named) {old : String} (hold : Named old) :
    (inner.rename f old (f old)).rename g (f old) (g (f old)) =
      inner.rename (g ∘ f) old (g (f old)) := by
  match inner with
  | .nil => rfl
  | .cons name args rest =>
    obtain ⟨hname, hargs, hrest⟩ := h
    obtain ⟨segment, -, hsegment⟩ := hnest old name hold hname
    obtain ⟨segment', -, hsegment'⟩ := hboth old name hold hname
    have hagain : g (f old ++ "$" ++ segment) = g (f old) ++ "$" ++ segment' := by
      rw [← hsegment]
      exact hsegment'
    have honce : (InnerSegments.cons name args rest).rename (g ∘ f) old (g (f old)) = _ :=
      InnerSegments.rename_cons args rest hsegment'
    rw [InnerSegments.rename_cons args rest hsegment, InnerSegments.rename_cons _ _ hagain, honce,
      ← hsegment, args.rename_rename hnest hboth hargs,
      rest.rename_rename hnest hboth hrest (hold.nest hname)]
    rfl

end

/-! ## Signatures -/

theorem SignaturePart.spelled_rename (hf : ∀ name, Named name → Named (f name))
    (hnest : KeepsNesting f) {p : SignaturePart} (hp : p.Spelled Named) :
    (p.rename f).Spelled Named := by
  cases p with
  | mark c => exact hp
  | type t => exact t.spelled_rename hf hnest hp

theorem SignaturePart.rename_rename (hnest : KeepsNesting f) (hboth : KeepsNesting (g ∘ f))
    {p : SignaturePart} (hp : p.Spelled Named) : (p.rename f).rename g = p.rename (g ∘ f) := by
  cases p with
  | mark c => rfl
  | type t => rw [rename, rename, t.rename_rename hnest hboth hp, rename]

theorem TypeParameter.readable_rename (hf : ∀ name, Named name → Named (f name))
    (hnest : KeepsNesting f) {p : TypeParameter} (hp : p.Readable Named) :
    (p.rename f).Readable Named where
  named := hp.named
  unbroken := hp.unbroken
  bounds t ht := by
    obtain ⟨bound, hbound, heq⟩ := List.mem_map.1 ht
    obtain ⟨t, rfl, rfl⟩ := Option.map_eq_some_iff.1 heq
    exact t.spelled_rename hf hnest (hp.bounds t hbound)

theorem TypeParameter.rename_rename (hnest : KeepsNesting f) (hboth : KeepsNesting (g ∘ f))
    {p : TypeParameter} (hp : p.Readable Named) : (p.rename f).rename g = p.rename (g ∘ f) := by
  have hbounds : (p.bounds.map (·.map (·.rename f))).map (·.map (·.rename g)) =
      p.bounds.map (·.map (·.rename (g ∘ f))) := by
    rw [List.map_map]
    refine List.map_congr_left fun bound hbound => ?_
    cases bound with
    | none => rfl
    | some t => exact congrArg some (t.rename_rename hnest hboth (hp.bounds t hbound))
  rw [rename, rename, hbounds, rename]

theorem TypeParameter.getLast?_bounds_rename (p : TypeParameter) :
    (p.rename f).bounds.getLast?.join = none ↔ p.bounds.getLast?.join = none := by
  rw [rename, List.getLast?_map]
  rcases p.bounds.getLast? with _ | _ | _ <;> simp

theorem readableParameters_rename (hf : ∀ name, Named name → Named (f name))
    (hnest : KeepsNesting f) {ps : List TypeParameter} (h : ReadableParameters Named ps) :
    ReadableParameters Named (ps.map (·.rename f)) := by
  induction ps with
  | nil => trivial
  | cons p ps ih =>
    obtain ⟨hp, hlast, hps⟩ := h
    refine ⟨TypeParameter.readable_rename hf hnest hp, fun hnone => ?_, ih hps⟩
    rw [hlast (p.getLast?_bounds_rename.1 hnone), List.map_nil]

theorem map_rename_parameters (hnest : KeepsNesting f) (hboth : KeepsNesting (g ∘ f))
    {ps : List TypeParameter} (h : ReadableParameters Named ps) :
    (ps.map (·.rename f)).map (·.rename g) = ps.map (·.rename (g ∘ f)) := by
  induction ps with
  | nil => rfl
  | cons p ps ih =>
    rw [List.map_cons, List.map_cons, ih h.2.2, TypeParameter.rename_rename hnest hboth h.1,
      List.map_cons]

namespace Signature

theorem Readable.renameTree (hf : ∀ name, Named name → Named (f name)) (hnest : KeepsNesting f)
    {s : Signature} (hs : s.Readable Named) : (s.renameTree f).Readable Named where
  parameters ps hps := by
    obtain ⟨ps, heq, rfl⟩ := Option.map_eq_some_iff.1 hps
    exact readableParameters_rename hf hnest (hs.parameters ps heq)
  parts p hp := by
    obtain ⟨part, hpart, rfl⟩ := List.mem_map.1 hp
    exact SignaturePart.spelled_rename hf hnest (hs.parts part hpart)

theorem renameTree_renameTree (hnest : KeepsNesting f) (hboth : KeepsNesting (g ∘ f))
    {s : Signature} (hs : s.Readable Named) :
    (s.renameTree f).renameTree g = s.renameTree (g ∘ f) := by
  obtain ⟨parameters, parts⟩ := s
  have hparts : (parts.map (·.rename f)).map (·.rename g) = parts.map (·.rename (g ∘ f)) := by
    rw [List.map_map]
    exact List.map_congr_left fun p hp => SignaturePart.rename_rename hnest hboth (hs.parts p hp)
  cases parameters with
  | none => rw [renameTree, renameTree, hparts, renameTree, Option.map_none, Option.map_none,
      Option.map_none]
  | some ps =>
    have hps := map_rename_parameters hnest hboth (hs.parameters ps rfl)
    rw [renameTree, renameTree, hparts, renameTree, Option.map_some, Option.map_some, hps,
      Option.map_some]

/-- A text that was renamed is read as the renamed tree. -/
theorem rename?_rename? (hf : ∀ name, Named name → Named (f name)) (hnest : KeepsNesting f)
    (hboth : KeepsNesting (g ∘ f)) {s t : String} (h : rename? f s = some t) :
    rename? g t = rename? (g ∘ f) s := by
  obtain ⟨tree, hread, rfl⟩ := Option.map_eq_some_iff.1 h
  have hreadable := (parse?_eq_some_iff.1 hread).1
  have hagain : parse? (tree.renameTree f).print = some (tree.renameTree f) :=
    parse?_print (hreadable.renameTree hf hnest)
  rw [rename?, rename?, hread, String.toList_ofList, hagain, Option.map_some, Option.map_some,
    renameTree_renameTree hnest hboth hreadable]

end Signature

/-- Renaming is a functor on new class names. Names that stay leave every descriptor and every
signature that is accepted as it is; and what is renamed twice is renamed by both steps at once,
for any text that is a descriptor and any that is accepted as a signature. -/
theorem renaming_functorial :
    (∀ d, Descriptor.rename id d = d) ∧
    (∀ f g : String → String, (∀ name : String, ';' ∉ name.toList → ';' ∉ (f name).toList) →
      ∀ d, Descriptor.rename g (Descriptor.rename f d) = Descriptor.rename (g ∘ f) d) ∧
    (∀ s, Signature.rename? id s = none ∨ Signature.rename? id s = some s) ∧
    (∀ f g : String → String, (∀ name, Named name → Named (f name)) → KeepsNesting f →
      KeepsNesting (g ∘ f) → ∀ s t, Signature.rename? f s = some t →
        Signature.rename? g t = Signature.rename? (g ∘ f) s) := by
  refine ⟨fun d => Descriptor.rename_eq_self fun _ _ => rfl, fun f g hf d => ?_, fun s => ?_,
    fun f g hf hnest hboth s t h => Signature.rename?_rename? hf hnest hboth h⟩
  · rw [Descriptor.rename, Descriptor.rename, String.toList_ofList,
      Descriptor.renameChars_renameChars hf, Descriptor.rename]
  · cases h : Signature.rename? id s with
    | none => exact .inl rfl
    | some t => exact .inr (by rw [Signature.rename?_eq_some_self (fun _ _ _ _ => rfl) h])

/-- Classes that move twice, in an unclosed descriptor and in a signature outside of the grammar. -/
theorem renaming_functorial_moved :
    (∀ name : String, ';' ∉ name.toList → ';' ∉ ("La/" ++ name).toList) ∧
      (∀ name, Named name → Named ("La/" ++ name)) ∧ KeepsNesting ("La/" ++ ·) ∧
      KeepsNesting (("x/" ++ ·) ∘ ("La/" ++ ·)) ∧
      Descriptor.rename ("x/" ++ ·) (Descriptor.rename ("La/" ++ ·) "(Lb;[Lc$d;L") =
        "(Lx/La/b;[Lx/La/c$d;L" ∧
      Signature.rename? ("La/" ++ ·) "<T>Lb<TT;>.c;" = some "<T>LLa/b<TT;>.c;" ∧
      Signature.rename? ("x/" ++ ·) "<T>LLa/b<TT;>.c;" = some "<T>Lx/La/b<TT;>.c;" := by
  have hclosed : ∀ name : String, ';' ∉ name.toList → ';' ∉ ("La/" ++ name).toList := by
    intro name h
    simpa using h
  have hnamed : ∀ name, Named name → Named ("La/" ++ name) := by
    rintro name ⟨-, h⟩
    refine ⟨by simp, fun c hc => ?_⟩
    simp only [String.toList_append, List.mem_append] at hc
    rcases hc with hc | hc
    · have hfront : c = 'L' ∨ c = 'a' ∨ c = '/' := by simpa using hc
      rcases hfront with rfl | rfl | rfl <;> decide
    · exact h c hc
  have hnest : KeepsNesting ("La/" ++ ·) := fun outer own _ hown =>
    ⟨own, hown.1, by simp [String.append_assoc]⟩
  have hboth : KeepsNesting (("x/" ++ ·) ∘ ("La/" ++ ·)) := fun outer own _ hown =>
    ⟨own, hown.1, by simp [String.append_assoc]⟩
  obtain ⟨-, hdescriptor, -, hsignature⟩ := renaming_functorial
  have hfirst : Signature.rename? ("La/" ++ ·) "<T>Lb<TT;>.c;" = some "<T>LLa/b<TT;>.c;" := by
    decide +kernel
  refine ⟨hclosed, hnamed, hnest, hboth, ?_, hfirst, ?_⟩
  · rw [hdescriptor _ _ hclosed]
    decide +kernel
  · rw [hsignature _ _ hnamed hnest hboth _ _ hfirst]
    decide +kernel

end JarRefit.Naming
