import JarRefit.Proofs.Naming.Grammar
import JarRefit.Proofs.Naming.Reading

/-!
# Renaming follows the grammar

Every signature of the grammar is read, and renaming it is respelling the class types in it: the
tree that is read for the text of a signature has the parts of that signature, and renaming the tree
spells them with the new class names.

## Main definitions

* `Grammar.Signature.tree`: the tree that is read for a signature in some spelling.
-/
namespace JarRefit.Naming.Grammar

open Naming.Signature (Named Unbroken)

/-! ## Trees -/

/-- Type arguments, absent if there are none. -/
def optionalArgs : TypeArgList → TypeArgs
  | .nil => .absent
  | args => .present args

mutual

def ReferenceType.tree (sp : Spelling) : ReferenceType → TypeSig
  | .cls name args inner =>
    .cls (sp.outermost name.text) (optionalArgs (args.tree sp)) (inner.tree sp name.text)
  | .typeVariable name => .variable name.text
  | .baseArray element => .array (.base element.letter)
  | .array element => .array (element.tree sp)

def Arguments.tree (sp : Spelling) : Arguments → TypeArgList
  | .nil => .nil
  | .any rest => .any (rest.tree sp)
  | .type wildcard t rest => .type (wildcard.map Wildcard.mark) (t.tree sp) (rest.tree sp)

def Suffixes.tree (sp : Spelling) (outer : String) : Suffixes → InnerSegments
  | .nil => .nil
  | .cons name args rest =>
    .cons (sp.segment outer name.text) (optionalArgs (args.tree sp))
      (rest.tree sp (nestedName outer name.text))

end

def JavaType.tree (sp : Spelling) : JavaType → TypeSig
  | .base t => .base t.letter
  | .reference t => t.tree sp

def TypeParameter.tree (sp : Spelling) (p : TypeParameter) : Naming.TypeParameter where
  name := p.name.text
  bounds := p.classBound.map (·.tree sp) :: p.interfaceBounds.map fun t => some (t.tree sp)

def Signature.parts (sp : Spelling) : Signature → List SignaturePart
  | .cls _ superclass interfaces =>
    (superclass :: interfaces).map fun t => .type (t.toReference.tree sp)
  | .method _ arguments result throws =>
    .mark '(' :: (arguments.map (fun t => .type (t.tree sp)) ++
      .mark ')' :: result.elim (.mark 'V') (fun t => .type (t.tree sp)) ::
        throws.flatMap fun t => [.mark '^', .type (t.toReference.tree sp)])
  | .field t => [.type (t.tree sp)]

/-- The tree that is read for a signature when its class types are spelled in some way. -/
def Signature.tree (sp : Spelling) (s : Signature) : Naming.Signature where
  parameters := if s.parameters.isEmpty then none else some (s.parameters.map (·.tree sp))
  parts := s.parts sp

variable {sp : Spelling} {r : List Char}

/-! ## The tree has the text of the signature -/

theorem bracketed_of_ne_nil {items : List Char} (h : items ≠ []) :
    bracketed items = '<' :: (items ++ ['>']) := by
  cases items with
  | nil => exact absurd rfl h
  | cons => rfl

theorem ReferenceType.write_ne_nil (t : ReferenceType) : t.write sp ≠ [] := by
  cases t <;> simp [ReferenceType.write]

theorem print_optionalArgs {args : Arguments}
    (h : ∀ r, (args.tree sp).print r = args.write sp ++ r) (r : List Char) :
    (optionalArgs (args.tree sp)).print r = bracketed (args.write sp) ++ r := by
  have hpresent (hne : args.write sp ≠ []) :
      (TypeArgs.present (args.tree sp)).print r = bracketed (args.write sp) ++ r := by
    rw [TypeArgs.print, h, bracketed_of_ne_nil hne]
    simp
  cases args with
  | nil => rfl
  | any rest => exact hpresent (List.cons_ne_nil _ _)
  | type wildcard t rest => exact hpresent (by simp [Arguments.write, t.write_ne_nil])

mutual

theorem ReferenceType.print_tree (t : ReferenceType) (r : List Char) :
    (t.tree sp).print r = t.write sp ++ r := by
  cases t with
  | cls name args inner =>
    simp [ReferenceType.tree, TypeSig.print, ReferenceType.write, inner.print_tree,
      print_optionalArgs args.print_tree]
  | typeVariable name => simp [ReferenceType.tree, TypeSig.print, ReferenceType.write]
  | baseArray element => rfl
  | array element =>
    rw [ReferenceType.tree, TypeSig.print, element.print_tree]
    rfl

theorem Arguments.print_tree (args : Arguments) (r : List Char) :
    (args.tree sp).print r = args.write sp ++ r := by
  cases args with
  | nil => rfl
  | any rest =>
    rw [Arguments.tree, TypeArgList.print, rest.print_tree]
    rfl
  | type wildcard t rest =>
    cases wildcard <;>
      simp [Arguments.tree, TypeArgList.print, Arguments.write, t.print_tree, rest.print_tree]

theorem Suffixes.print_tree (inner : Suffixes) (outer : String) (r : List Char) :
    (inner.tree sp outer).print r = inner.write sp outer ++ r := by
  cases inner with
  | nil => rfl
  | cons name args rest =>
    simp [Suffixes.tree, InnerSegments.print, Suffixes.write, rest.print_tree,
      print_optionalArgs args.print_tree]

end

theorem JavaType.print_tree (t : JavaType) (r : List Char) :
    (t.tree sp).print r = t.write sp ++ r := by
  cases t with
  | base t => rfl
  | reference t => exact t.print_tree r

/-- Items that are printed in front of a text each, one before the other. -/
theorem foldr_eq_flatMap_append {α : Type} {print : α → List Char → List Char}
    {write : α → List Char} (h : ∀ x r, print x r = write x ++ r) (xs : List α) (r : List Char) :
    xs.foldr print r = xs.flatMap write ++ r := by
  induction xs with
  | nil => rfl
  | cons x xs ih => rw [List.foldr_cons, ih, h, List.flatMap_cons, List.append_assoc]

theorem TypeParameter.print_tree (p : TypeParameter) (r : List Char) :
    (p.tree sp).print r = p.write sp ++ r := by
  have hinterfaces : printBounds (p.interfaceBounds.map fun t => some (t.tree sp)) r =
      (p.interfaceBounds.flatMap fun t => ':' :: t.write sp) ++ r := by
    rw [printBounds, List.foldr_map]
    exact foldr_eq_flatMap_append (fun t r => by simp [t.print_tree]) _ _
  have hbounds : printBounds (p.tree sp).bounds r = ':' :: (p.classBound.elim [] (·.write sp) ++
      ((p.interfaceBounds.flatMap fun t => ':' :: t.write sp) ++ r)) := by
    rw [← hinterfaces]
    cases hbound : p.classBound with
    | none => simp [TypeParameter.tree, hbound, printBounds]
    | some t => simp [TypeParameter.tree, hbound, printBounds, t.print_tree]
  rw [TypeParameter.print_eq, hbounds, TypeParameter.write, TypeParameter.tree]
  simp

theorem Signature.print_parts (s : Signature) :
    bracketed (s.parameters.flatMap (·.write sp)) ++ (s.parts sp).foldr SignaturePart.print [] =
      s.write sp := by
  cases s with
  | cls parameters superclass interfaces =>
    simp [Signature.parts, Signature.write, Signature.parameters, SignaturePart.print,
      List.foldr_map, ReferenceType.print_tree, List.flatMap_def]
  | method parameters arguments result throws =>
    have hthrows : (throws.flatMap fun t => [SignaturePart.mark '^',
        .type (t.toReference.tree sp)]).foldr SignaturePart.print [] =
          throws.flatMap fun t => '^' :: t.toReference.write sp := by
      induction throws with
      | nil => rfl
      | cons t throws ih =>
        simp [ih, SignaturePart.print, ReferenceType.print_tree]
    cases result <;>
      simp [Signature.parts, Signature.write, Signature.parameters, SignaturePart.print,
        List.foldr_map, JavaType.print_tree, hthrows] <;>
      simp [List.flatMap_def]
  | field t =>
    simp [Signature.parts, Signature.write, Signature.parameters, SignaturePart.print,
      ReferenceType.print_tree, bracketed]

theorem Signature.print_tree (s : Signature) : (s.tree sp).print = s.write sp := by
  rw [← s.print_parts]
  cases hps : s.parameters with
  | nil => simp [Signature.tree, hps, Naming.Signature.print, bracketed]
  | cons p ps =>
    have hne : (p :: ps).flatMap (·.write sp) ≠ [] := by simp [TypeParameter.write]
    have hparameters : ((p :: ps).map (·.tree sp)).foldr Naming.TypeParameter.print
        ('>' :: (s.parts sp).foldr SignaturePart.print []) =
          (p :: ps).flatMap (·.write sp) ++ '>' :: (s.parts sp).foldr SignaturePart.print [] := by
      rw [List.foldr_map]
      exact foldr_eq_flatMap_append TypeParameter.print_tree _ _
    rw [bracketed_of_ne_nil hne, Signature.tree, Naming.Signature.print, hps, List.isEmpty_cons,
      if_neg Bool.false_ne_true]
    dsimp only
    rw [hparameters]
    simp

/-! ## Renaming the tree respells the class types -/

variable {f : String → String}

theorem rename_optionalArgs (args : TypeArgList) :
    (optionalArgs args).rename f = optionalArgs (args.rename f) := by
  cases args <;> rfl

mutual

theorem ReferenceType.rename_tree (t : ReferenceType) :
    (t.tree .plain).rename f = t.tree (.renamed f) := by
  cases t with
  | cls name args inner =>
    rw [ReferenceType.tree, TypeSig.rename, rename_optionalArgs, args.rename_tree]
    exact congrArg _ (inner.rename_tree name.text)
  | array element =>
    rw [ReferenceType.tree, TypeSig.rename, element.rename_tree, ReferenceType.tree]
  | _ => rfl

theorem Arguments.rename_tree (args : Arguments) :
    (args.tree .plain).rename f = args.tree (.renamed f) := by
  cases args with
  | nil => rfl
  | any rest => rw [Arguments.tree, TypeArgList.rename, rest.rename_tree, Arguments.tree]
  | type wildcard t rest =>
    rw [Arguments.tree, TypeArgList.rename, t.rename_tree, rest.rename_tree, Arguments.tree]

theorem Suffixes.rename_tree (inner : Suffixes) (outer : String) :
    (inner.tree .plain outer).rename f outer (f outer) = inner.tree (.renamed f) outer := by
  cases inner with
  | nil => rfl
  | cons name args rest =>
    have hsegment : (match Text.dropFront? (f outer ++ "$").toList
        (f (outer ++ "$" ++ name.text)).toList with
        | some simple => String.ofList simple
        | none => name.text) = (Spelling.renamed f).segment outer name.text := by
      simp only [Text.dropFront?, Spelling.renamed, nestedName]
      split <;> simp_all
    rw [Suffixes.tree, InnerSegments.rename, rename_optionalArgs, args.rename_tree, Suffixes.tree,
      ← hsegment]
    exact congrArg _ (rest.rename_tree (nestedName outer name.text))

end

theorem JavaType.rename_tree (t : JavaType) : (t.tree .plain).rename f = t.tree (.renamed f) := by
  cases t with
  | base t => rfl
  | reference t => exact t.rename_tree

theorem TypeParameter.rename_tree (p : TypeParameter) :
    (p.tree .plain).rename f = p.tree (.renamed f) := by
  simp [TypeParameter.tree, Naming.TypeParameter.rename, ReferenceType.rename_tree,
    Function.comp_def]

theorem Signature.rename_tree (s : Signature) :
    (s.tree .plain).renameTree f = s.tree (.renamed f) := by
  have hparts : (s.parts .plain).map (·.rename f) = s.parts (.renamed f) := by
    cases s with
    | method parameters arguments result throws =>
      cases result <;>
        simp [Signature.parts, SignaturePart.rename, JavaType.rename_tree,
          ReferenceType.rename_tree, List.map_flatMap, Function.comp_def]
    | _ =>
      simp [Signature.parts, SignaturePart.rename, ReferenceType.rename_tree, Function.comp_def]
  rw [Signature.tree, Signature.tree, Naming.Signature.renameTree, hparts]
  split <;> simp [TypeParameter.rename_tree, Function.comp_def]

/-! ## The tree can be told apart from what is around it -/

/-- Whether a spelling gives only such names to the classes in a signature. -/
structure Spelling.Yields (sp : Spelling) (ok : String → Prop) : Prop where
  outermost : ∀ name : ClassName, ok (sp.outermost name.text)
  segment : ∀ (outer : ClassName) (own : Identifier), ok (sp.segment outer.text own.text)

variable {ok : String → Prop}

theorem spelled_optionalArgs {args : TypeArgList} (h : args.Spelled ok) :
    (optionalArgs args).Spelled ok := by
  cases args <;> exact h

theorem BaseType.letter_mem (t : BaseType) : t.letter ∈ Naming.Signature.baseLetters := by
  cases t <;> decide

theorem Identifier.avoids {stops : List Char} (name : Identifier) (hstops : stops ⊆ reserved) :
    ∀ c ∈ name.text.toList, c ∉ stops :=
  fun c hc hstop => name.unreserved c hc (hstops hstop)

mutual

theorem ReferenceType.spelled_tree (hsp : sp.Yields ok) (t : ReferenceType) :
    (t.tree sp).Spelled ok := by
  cases t with
  | cls name args inner =>
    exact ⟨hsp.outermost name, spelled_optionalArgs (args.spelled_tree hsp),
      inner.spelled_tree hsp name⟩
  | typeVariable name => exact fun hc => name.unreserved ';' hc (by decide)
  | baseArray element => exact element.letter_mem
  | array element => exact element.spelled_tree hsp

theorem Arguments.spelled_tree (hsp : sp.Yields ok) (args : Arguments) :
    (args.tree sp).Spelled ok := by
  cases args with
  | nil => trivial
  | any rest => exact rest.spelled_tree hsp
  | type wildcard t rest =>
    refine ⟨?_, t.spelled_tree hsp, rest.spelled_tree hsp⟩
    rcases wildcard with _ | _ | _ <;> simp [Wildcard.mark]

theorem Suffixes.spelled_tree (hsp : sp.Yields ok) (inner : Suffixes) (outer : ClassName) :
    (inner.tree sp outer.text).Spelled ok := by
  cases inner with
  | nil => trivial
  | cons name args rest =>
    refine ⟨hsp.segment outer name, spelled_optionalArgs (args.spelled_tree hsp), ?_⟩
    rw [← outer.text_nest name]
    exact rest.spelled_tree hsp (outer.nest name)

end

theorem JavaType.spelled_tree (hsp : sp.Yields ok) (t : JavaType) : (t.tree sp).Spelled ok := by
  cases t with
  | base t => exact t.letter_mem
  | reference t => exact t.spelled_tree hsp

theorem TypeParameter.spelled_tree (hsp : sp.Yields ok) (p : TypeParameter) :
    (p.tree sp).Spelled ok where
  named := p.name.ne_empty
  unbroken := p.name.avoids (by decide)
  bounded := List.cons_ne_nil _ _
  bounds t ht := by
    simp only [TypeParameter.tree, List.mem_cons, List.mem_map, Option.some.injEq,
      eq_comm (a := some t), Option.map_eq_some_iff] at ht
    obtain ⟨bound, -, rfl⟩ | ⟨bound, -, rfl⟩ := ht <;> exact bound.spelled_tree hsp

/-- A last bound is left out only where there is no other one. -/
theorem TypeParameter.getLast?_bounds_tree {p : TypeParameter}
    (h : (p.tree sp).bounds.getLast? = some none) :
    p.classBound = none ∧ p.interfaceBounds = [] := by
  cases hinterfaces : p.interfaceBounds with
  | nil => simpa [TypeParameter.tree, hinterfaces] using h
  | cons t bounds =>
    simp [TypeParameter.tree, hinterfaces, List.getLast?_cons] at h

theorem spelledParameters_tree (hsp : sp.Yields ok) {ps : List TypeParameter}
    (hclosed : ∀ p ∈ ps.dropLast, p.classBound = none → p.interfaceBounds ≠ []) :
    SpelledParameters ok (ps.map (·.tree sp)) := by
  induction ps with
  | nil => trivial
  | cons p ps ih =>
    refine ⟨p.spelled_tree hsp, fun hlast => ?_, ih fun q hq => hclosed q ?_⟩
    · obtain ⟨hcls, hinterfaces⟩ := TypeParameter.getLast?_bounds_tree hlast
      cases ps with
      | nil => rfl
      | cons q ps => exact absurd hinterfaces (hclosed p (by simp) hcls)
    · cases ps with
      | nil => cases hq
      | cons => exact List.mem_cons_of_mem _ hq

theorem Signature.spelled_parts (hsp : sp.Yields ok) (s : Signature) :
    ∀ part ∈ s.parts sp, part.Spelled ok := by
  cases s with
  | cls parameters superclass interfaces =>
    intro part hpart
    obtain ⟨t, -, rfl⟩ := List.mem_map.1 hpart
    exact t.toReference.spelled_tree hsp
  | method parameters arguments result throws =>
    have hmark : ∀ c ∈ Naming.Signature.marks, (SignaturePart.mark c).Spelled ok := fun _ hc => hc
    have hresult : SignaturePart.Spelled ok
        (result.elim (.mark 'V') fun t => .type (t.tree sp)) := by
      cases result with
      | none => exact hmark 'V' (by decide)
      | some t => exact t.spelled_tree hsp
    have hthrown : ∀ part ∈ throws.flatMap fun t =>
        [SignaturePart.mark '^', .type (t.toReference.tree sp)], part.Spelled ok := by
      intro part hpart
      obtain ⟨t, -, hpart⟩ := List.mem_flatMap.1 hpart
      obtain rfl | rfl : part = .mark '^' ∨ part = .type (t.toReference.tree sp) := by
        simpa using hpart
      · exact hmark '^' (by decide)
      · exact t.toReference.spelled_tree hsp
    rw [Signature.parts, List.forall_mem_cons, List.forall_mem_append, List.forall_mem_cons,
      List.forall_mem_cons]
    refine ⟨hmark '(' (by decide), fun part hpart => ?_, hmark ')' (by decide), hresult, hthrown⟩
    obtain ⟨t, -, rfl⟩ := List.mem_map.1 hpart
    exact t.spelled_tree hsp
  | field t =>
    rw [Signature.parts, List.forall_mem_singleton]
    exact t.spelled_tree hsp

theorem Signature.spelled_tree (hsp : sp.Yields ok) {s : Signature} (hs : s.BoundsClosed) :
    (s.tree sp).Spelled ok where
  parameters ps hps := by
    rw [Signature.tree] at hps
    split at hps
    · cases hps
    · cases hps
      exact spelledParameters_tree hsp hs
  parts := s.spelled_parts hsp

/-! ## Every signature is read -/

theorem ClassName.unreserved (name : ClassName) :
    ∀ c ∈ name.text.toList, c = '/' ∨ c ∉ reserved := by
  obtain ⟨packages, simple⟩ := name
  induction packages with
  | nil => exact fun c hc => .inr (simple.unreserved c hc)
  | cons package packages ih =>
    intro c hc
    simp only [ClassName.text, List.foldr_cons, String.toList_append, List.mem_append] at hc ih
    rcases hc with (hc | hc) | hc
    · exact .inr (package.unreserved c hc)
    · exact .inl (by simpa using hc)
    · exact ih c hc

theorem ClassName.avoids {stops : List Char} (name : ClassName) (hslash : '/' ∉ stops)
    (hstops : stops ⊆ reserved) : ∀ c ∈ name.text.toList, c ∉ stops := by
  intro c hc hstop
  rcases name.unreserved c hc with rfl | hunreserved
  · exact hslash hstop
  · exact hunreserved (hstops hstop)

theorem ClassName.text_ne_empty (name : ClassName) : name.text ≠ "" := by
  obtain ⟨packages, simple⟩ := name
  cases packages with
  | nil => exact simple.ne_empty
  | cons package packages => simp [ClassName.text]

theorem plain_yields_named : Spelling.plain.Yields Named where
  outermost name := ⟨name.text_ne_empty, name.avoids (by decide) (by decide)⟩
  segment _ own := ⟨own.ne_empty, own.avoids (by decide)⟩

/-- The text of a signature is read as its tree. -/
theorem Signature.parse?_text {s : Signature} (hs : s.BoundsClosed) :
    Naming.Signature.parse? s.text.toList = some (s.tree .plain) := by
  rw [Signature.text, String.toList_ofList, ← s.print_tree]
  exact Naming.Signature.parse?_print (s.spelled_tree plain_yields_named hs).readable

/-- Whatever is read as the tree of a signature is renamed by respelling its class types. -/
theorem Signature.rename?_of_parse? (f : String → String) {s : Signature} {text : String}
    (htext : Naming.Signature.parse? text.toList = some (s.tree .plain)) :
    Naming.Signature.rename? f text = some (s.renamed f) := by
  rw [Naming.Signature.rename?, htext, Option.map_some, s.rename_tree, s.print_tree,
    Signature.renamed]

/-- A signature is renamed by respelling its class types: the outermost name becomes its new name,
a nested one what its new name adds to the new name around it, and all else stays. -/
theorem Signature.rename?_text (f : String → String) {s : Signature} (hs : s.BoundsClosed) :
    Naming.Signature.rename? f s.text = some (s.renamed f) :=
  s.rename?_of_parse? f (s.parse?_text hs)

/-! ### A method with everything -/

/-- A method with type parameters that have no class bound, the last of them no bound at all, with
nested classes, wildcards, arrays and all that can be thrown. -/
def richMethod : Signature :=
  let a : ClassName := ⟨[], ⟨"a", by decide, by simp [reserved]⟩⟩
  let b : ClassName := ⟨[], ⟨"b", by decide, by simp [reserved]⟩⟩
  let java : Identifier := ⟨"java", by decide, by simp [reserved]⟩
  let lang : Identifier := ⟨"lang", by decide, by simp [reserved]⟩
  let comparable : ClassName := ⟨[java, lang], ⟨"Comparable", by decide, by simp [reserved]⟩⟩
  let first : Identifier := ⟨"A", by decide, by simp [reserved]⟩
  let second : Identifier := ⟨"B", by decide, by simp [reserved]⟩
  let bound : ReferenceType :=
    .cls comparable (.type (some .lower) (.typeVariable first) .nil) .nil
  let inner : Suffixes :=
    .cons ⟨"c", by decide, by simp [reserved]⟩ (.type none (.typeVariable second) .nil)
      (.cons ⟨"d", by decide, by simp [reserved]⟩ .nil .nil)
  .method [⟨first, none, [bound]⟩, ⟨second, none, []⟩]
    [.reference (.cls a .nil .nil), .base .int,
      .reference (.array (.cls b (.any (.type (some .upper) (.baseArray .long) .nil)) inner))]
    none [.typeVariable first, .cls ⟨a, .nil, .nil⟩]

/-- New names under which `b$c` stays nested in `b`, and `b$c$d` does not stay in `b$c`. -/
def richNames (name : String) : String :=
  if name = "a" then "net/World" else if name = "b" then "net/Entity"
  else if name = "b$c" then "net/Entity$Part" else if name = "b$c$d" then "net/Loose" else name

theorem text_richMethod : richMethod.text =
    "<A::Ljava/lang/Comparable<-TA;>;B:>" ++ "(La;I[Lb<*+[J>.c<TB;>.d;)V^TA;^La;" := by
  decide +kernel

theorem renamed_richMethod : richMethod.renamed richNames =
    "<A::Ljava/lang/Comparable<-TA;>;B:>" ++
      "(Lnet/World;I[Lnet/Entity<*+[J>.Part<TB;>.d;)V^TA;^Lnet/World;" := by
  decide +kernel

theorem boundsClosed_richMethod : richMethod.BoundsClosed := by
  simp [Signature.BoundsClosed, Signature.parameters, richMethod]

theorem rename?_text_richMethod :
    richMethod.BoundsClosed ∧ Naming.Signature.rename? richNames
      ("<A::Ljava/lang/Comparable<-TA;>;B:>" ++ "(La;I[Lb<*+[J>.c<TB;>.d;)V^TA;^La;") =
        some ("<A::Ljava/lang/Comparable<-TA;>;B:>" ++
          "(Lnet/World;I[Lnet/Entity<*+[J>.Part<TB;>.d;)V^TA;^Lnet/World;") := by
  rw [← text_richMethod, ← renamed_richMethod]
  exact ⟨boundsClosed_richMethod, Signature.rename?_text richNames boundsClosed_richMethod⟩

end JarRefit.Naming.Grammar
