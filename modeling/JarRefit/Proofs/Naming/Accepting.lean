import JarRefit.Proofs.Naming.Reading

/-!
# Texts that are accepted as signatures

The reader of signatures takes more texts than the grammar has. What it takes is printed as it was
written, and can be told apart; so the accepted texts are those that are printed for such trees.

## Main definitions

* `Signature.PrintsBack`: reading with some fuel, undone by printing.
-/
namespace JarRefit.Naming.Signature

open Text (StartsIn)

variable {fuel : Nat} {cs rest : List Char}

/-! ## Names -/

/-- A name that is read stands in front of a stop, and no stop is in it. -/
theorem identifier?_eq_some {stops : List Char} {name : String}
    (h : identifier? stops cs = some (name, rest)) :
    name ≠ "" ∧ (∀ c ∈ name.toList, c ∉ stops) ∧ StartsIn stops rest ∧
      name.toList ++ rest = cs := by
  unfold identifier? at h
  dsimp only at h
  split at h
  · cases h
  · next hparts =>
    cases h
    simp only [Bool.or_eq_true, List.isEmpty_iff, not_or] at hparts
    obtain ⟨hname, hrest⟩ := hparts
    refine ⟨by simpa using hname, fun c hc => ?_, ?_, ?_⟩
    · rw [String.toList_ofList] at hc
      simpa using List.all_eq_true.1 List.all_takeWhile c hc
    · obtain ⟨c, after, hafter⟩ := List.exists_cons_of_ne_nil hrest
      have hstop := List.head?_dropWhile_not (!stops.contains ·) cs
      rw [hafter] at hstop ⊢
      exact ⟨c, by simpa using hstop, after, rfl⟩
    · rw [String.toList_ofList, List.takeWhile_append_dropWhile]

theorem named_of_identifier? {name : String} (h : identifier? nameStops cs = some (name, rest)) :
    Named name :=
  ⟨(identifier?_eq_some h).1, (identifier?_eq_some h).2.1⟩

theorem append_of_identifier? {stops : List Char} {name : String}
    (h : identifier? stops cs = some (name, rest)) : name.toList ++ rest = cs :=
  (identifier?_eq_some h).2.2.2

/-! ## Types -/

/-- With this fuel, printing undoes reading, and what is read can be told apart. -/
structure PrintsBack (fuel : Nat) : Prop where
  type : ∀ {cs t rest}, type? fuel cs = some (t, rest) → t.Spelled Named ∧ t.print rest = cs
  args : ∀ {cs args rest}, args? fuel cs = some (args, rest) →
    args.Spelled Named ∧ args.print rest = cs
  argList : ∀ {cs args rest}, argList? fuel cs = some (args, rest) →
    args.Spelled Named ∧ args.print ('>' :: rest) = cs
  inner : ∀ {cs inner rest}, inner? fuel cs = some (inner, rest) →
    inner.Spelled Named ∧ inner.print rest = cs

theorem PrintsBack.succ_type (h : PrintsBack fuel) {t : TypeSig}
    (hread : type? (fuel + 1) cs = some (t, rest)) : t.Spelled Named ∧ t.print rest = cs := by
  cases cs with
  | nil => simp [type?] at hread
  | cons c cs =>
    unfold type? at hread
    split at hread
    · obtain ⟨⟨name, afterName⟩, hname, hread⟩ := Option.bind_eq_some_iff.1 hread
      obtain ⟨⟨args, afterArgs⟩, hargs, hread⟩ := Option.bind_eq_some_iff.1 hread
      obtain ⟨⟨inner, afterInner⟩, hinner, hread⟩ := Option.bind_eq_some_iff.1 hread
      dsimp only at hread
      split at hread
      · cases hread
        obtain ⟨hargs, heqArgs⟩ := h.args hargs
        obtain ⟨hinner, heqInner⟩ := h.inner hinner
        refine ⟨⟨named_of_identifier? hname, hargs, hinner⟩, ?_⟩
        rw [TypeSig.print, heqInner, heqArgs, append_of_identifier? hname]
      · cases hread
    · obtain ⟨⟨name, afterName⟩, hname, hread⟩ := Option.bind_eq_some_iff.1 hread
      cases hread
      obtain ⟨hcs, hclosed⟩ := Text.cut?_eq_some hname
      refine ⟨?_, by rw [TypeSig.print, String.toList_ofList, ← hcs]⟩
      rwa [TypeSig.Spelled, String.toList_ofList]
    · obtain ⟨⟨element, afterElement⟩, helement, hread⟩ := Option.bind_eq_some_iff.1 hread
      cases hread
      obtain ⟨helement, heq⟩ := h.type helement
      exact ⟨helement, by rw [TypeSig.print, heq]⟩
    · split at hread
      · next hletter =>
        cases hread
        exact ⟨List.contains_iff_mem.1 hletter, rfl⟩
      · cases hread

theorem PrintsBack.succ_args (h : PrintsBack fuel) {args : TypeArgs}
    (hread : args? (fuel + 1) cs = some (args, rest)) :
    args.Spelled Named ∧ args.print rest = cs := by
  cases cs with
  | nil => simp [args?] at hread
  | cons c cs =>
    unfold args? at hread
    split at hread
    · obtain ⟨⟨args, afterArgs⟩, hargs, hread⟩ := Option.bind_eq_some_iff.1 hread
      cases hread
      obtain ⟨hargs, heq⟩ := h.argList hargs
      exact ⟨hargs, by rw [TypeArgs.print, heq]⟩
    · cases hread
      exact ⟨trivial, rfl⟩

theorem PrintsBack.succ_argList (h : PrintsBack fuel) {args : TypeArgList}
    (hread : argList? (fuel + 1) cs = some (args, rest)) :
    args.Spelled Named ∧ args.print ('>' :: rest) = cs := by
  cases cs with
  | nil => simp [argList?] at hread
  | cons c cs =>
    unfold argList? at hread
    split at hread
    · cases hread
      exact ⟨trivial, rfl⟩
    · obtain ⟨⟨more, afterMore⟩, hmore, hread⟩ := Option.bind_eq_some_iff.1 hread
      cases hread
      obtain ⟨hmore, heq⟩ := h.argList hmore
      exact ⟨hmore, by rw [TypeArgList.print, heq]⟩
    all_goals
      obtain ⟨⟨t, afterType⟩, htype, hread⟩ := Option.bind_eq_some_iff.1 hread
      obtain ⟨⟨more, afterMore⟩, hmore, hread⟩ := Option.bind_eq_some_iff.1 hread
      cases hread
      obtain ⟨htype, heqType⟩ := h.type htype
      obtain ⟨hmore, heqMore⟩ := h.argList hmore
      refine ⟨⟨by simp, htype, hmore⟩, ?_⟩
      rw [TypeArgList.print, heqMore, heqType]
      rfl

theorem PrintsBack.succ_inner (h : PrintsBack fuel) {inner : InnerSegments}
    (hread : inner? (fuel + 1) cs = some (inner, rest)) :
    inner.Spelled Named ∧ inner.print rest = cs := by
  cases cs with
  | nil => simp [inner?] at hread
  | cons c cs =>
    unfold inner? at hread
    split at hread
    · obtain ⟨⟨name, afterName⟩, hname, hread⟩ := Option.bind_eq_some_iff.1 hread
      obtain ⟨⟨args, afterArgs⟩, hargs, hread⟩ := Option.bind_eq_some_iff.1 hread
      obtain ⟨⟨more, afterMore⟩, hmore, hread⟩ := Option.bind_eq_some_iff.1 hread
      cases hread
      obtain ⟨hargs, heqArgs⟩ := h.args hargs
      obtain ⟨hmore, heqMore⟩ := h.inner hmore
      refine ⟨⟨named_of_identifier? hname, hargs, hmore⟩, ?_⟩
      rw [InnerSegments.print, heqMore, heqArgs, append_of_identifier? hname]
    · cases hread
      exact ⟨trivial, rfl⟩

theorem printsBack (fuel : Nat) : PrintsBack fuel := by
  induction fuel with
  | zero => constructor <;> intro _ _ _ h <;> simp [type?, args?, argList?, inner?] at h
  | succ fuel ih => exact ⟨ih.succ_type, ih.succ_args, ih.succ_argList, ih.succ_inner⟩

/-! ## Signatures -/

theorem closes_of_bounds? {bounds : List (Option TypeSig)}
    (hread : bounds? fuel cs = some (bounds, rest)) :
    (∀ t, some t ∈ bounds → t.Spelled Named) ∧ Closes bounds rest ∧
      printBounds bounds rest = cs := by
  induction fuel generalizing cs bounds with
  | zero => simp [bounds?] at hread
  | succ fuel ih =>
    cases cs with
    | nil => simp [bounds?] at hread
    | cons c cs =>
      unfold bounds? at hread
      split at hread
      · split at hread
        · cases hread
        · next d cs =>
          split at hread
          · next hd =>
            obtain ⟨⟨more, afterMore⟩, hmore, hread⟩ := Option.bind_eq_some_iff.1 hread
            cases hread
            obtain ⟨hspelled, ⟨c, after, hafter, hc, hlast⟩, heq⟩ := ih hmore
            refine ⟨by simpa using hspelled, ⟨c, after, hafter, hc, fun hnone => ?_⟩,
              congrArg (':' :: ·) heq⟩
            cases more with
            | nil =>
              -- The next character is the one that the bound was left out for.
              obtain ⟨rfl, -⟩ := List.cons.inj (hafter.symm.trans heq)
              simpa [hc] using hd
            | cons bound more => exact hlast (by simpa [List.getLast?_cons_cons] using hnone)
          · obtain ⟨⟨t, afterType⟩, htype, hread⟩ := Option.bind_eq_some_iff.1 hread
            obtain ⟨⟨more, afterMore⟩, hmore, hread⟩ := Option.bind_eq_some_iff.1 hread
            cases hread
            obtain ⟨hspelled, ⟨c, after, hafter, hc, hlast⟩, heq⟩ := ih hmore
            obtain ⟨htype, heqType⟩ := (printsBack _).type htype
            refine ⟨?_, ⟨c, after, hafter, hc, fun hnone => ?_⟩, ?_⟩
            · rintro t' ht'
              rcases List.mem_cons.1 ht' with hsame | ht'
              · cases hsame
                exact htype
              · exact hspelled t' ht'
            · cases more with
              | nil => cases hnone
              | cons bound more => exact hlast (by simpa [List.getLast?_cons_cons] using hnone)
            · rw [← heqType, ← heq]
              rfl
      · next hc =>
        cases hread
        exact ⟨by simp, ⟨c, cs, rfl, hc, by simp⟩, rfl⟩

theorem parameters?_eq_some {ps : List TypeParameter}
    (hread : parameters? fuel cs = some (ps, rest)) :
    ReadableParameters Named ps ∧ ps.foldr TypeParameter.print ('>' :: rest) = cs := by
  induction fuel generalizing cs ps with
  | zero => simp [parameters?] at hread
  | succ fuel ih =>
    cases cs with
    | nil => simp [parameters?] at hread
    | cons c cs =>
      unfold parameters? at hread
      split at hread
      · cases hread
        exact ⟨trivial, rfl⟩
      · obtain ⟨⟨name, afterName⟩, hname, hread⟩ := Option.bind_eq_some_iff.1 hread
        obtain ⟨⟨bounds, afterBounds⟩, hbounds, hread⟩ := Option.bind_eq_some_iff.1 hread
        obtain ⟨⟨more, afterMore⟩, hmore, hread⟩ := Option.bind_eq_some_iff.1 hread
        cases hread
        obtain ⟨hnamed, hunbroken, hstop, hcs⟩ := identifier?_eq_some hname
        obtain ⟨hspelled, hcloses, heqBounds⟩ := closes_of_bounds? hbounds
        obtain ⟨hps, heq⟩ := ih hmore
        refine ⟨⟨⟨hnamed, hunbroken, hspelled⟩, fun hnone => ?_, hps⟩, ?_⟩
        · cases hmissing : more with
          | nil => rfl
          | cons q more =>
            -- Behind a missing last bound stands the end of the name or that of the parameters.
            rw [hmissing] at hps heq
            obtain ⟨d, after, hprint, hd⟩ :=
              hps.1.head (more.foldr TypeParameter.print ('>' :: rest))
            have hafter : afterBounds = d :: after := heq.symm.trans hprint
            cases bounds with
            | nil =>
              obtain ⟨e, he, _, hstart⟩ := hstop
              have hsame : e = d := by
                rw [← heqBounds, hafter] at hstart
                exact (List.cons.inj hstart).1.symm
              exact absurd (hsame ▸ he) hd
            | cons bound bounds =>
              obtain ⟨e, _, hclose, -, hlast⟩ := hcloses
              have hlast : e = '>' := hlast (by
                rw [List.getLast?_cons] at hnone ⊢
                exact congrArg some hnone)
              obtain ⟨rfl, -⟩ := List.cons.inj (hafter.symm.trans hclose)
              exact absurd (by rw [hlast]; decide) hd
        · rw [List.foldr_cons, heq, TypeParameter.print_eq, heqBounds, hcs]

theorem parts?_eq_some {parts : List SignaturePart} (hread : parts? fuel cs = some parts) :
    (∀ p ∈ parts, p.Spelled Named) ∧ parts.foldr SignaturePart.print [] = cs := by
  induction fuel generalizing cs parts with
  | zero =>
    cases cs with
    | nil =>
      cases hread
      exact ⟨by simp, rfl⟩
    | cons c cs => simp [parts?] at hread
  | succ fuel ih =>
    cases cs with
    | nil =>
      cases hread
      exact ⟨by simp, rfl⟩
    | cons c cs =>
      unfold parts? at hread
      split at hread
      · next hmark =>
        obtain ⟨more, hmore, hread⟩ := Option.bind_eq_some_iff.1 hread
        cases hread
        obtain ⟨hspelled, heq⟩ := ih hmore
        refine ⟨List.forall_mem_cons.2 ⟨?_, hspelled⟩, by rw [List.foldr_cons, heq]; rfl⟩
        simpa [SignaturePart.Spelled, marks, or_assoc] using hmark
      · obtain ⟨⟨t, afterType⟩, htype, hread⟩ := Option.bind_eq_some_iff.1 hread
        obtain ⟨more, hmore, hread⟩ := Option.bind_eq_some_iff.1 hread
        cases hread
        obtain ⟨hspelled, heq⟩ := ih hmore
        obtain ⟨htype, heqType⟩ := (printsBack _).type htype
        refine ⟨List.forall_mem_cons.2 ⟨htype, hspelled⟩, ?_⟩
        rw [List.foldr_cons, heq, SignaturePart.print, heqType]

/-- The texts that are accepted are those that are printed for trees that can be told apart. -/
theorem parse?_eq_some_iff {s : Signature} :
    parse? cs = some s ↔ s.Readable Named ∧ s.print = cs := by
  constructor
  · intro hread
    unfold parse? at hread
    split at hread
    · obtain ⟨⟨ps, afterParameters⟩, hps, hread⟩ := Option.bind_eq_some_iff.1 hread
      obtain ⟨parts, hparts, hread⟩ := Option.bind_eq_some_iff.1 hread
      cases hread
      obtain ⟨hps, heqParameters⟩ := parameters?_eq_some hps
      obtain ⟨hparts, heqParts⟩ := parts?_eq_some hparts
      refine ⟨⟨fun ps' hps' => ?_, hparts⟩, ?_⟩
      · cases hps'
        exact hps
      · rw [print, heqParts]
        dsimp only
        rw [heqParameters]
    · obtain ⟨parts, hparts, hread⟩ := Option.bind_eq_some_iff.1 hread
      cases hread
      obtain ⟨hparts, heqParts⟩ := parts?_eq_some hparts
      exact ⟨⟨by simp, hparts⟩, by rw [print, heqParts]⟩
  · rintro ⟨hreadable, rfl⟩
    exact parse?_print hreadable

/-- What is renamed stays as it is if the classes in it keep their names. -/
theorem rename?_eq_some_self {f : String → String} {signature new : String}
    (h : ∀ s, parse? signature.toList = some s → ∀ name ∈ s.names, f name = name)
    (hnew : rename? f signature = some new) : new = signature := by
  obtain ⟨s, hread, rfl⟩ := Option.map_eq_some_iff.1 hnew
  rw [renameTree_eq_self (h s hread), (parse?_eq_some_iff.1 hread).2, String.ofList_toList]

end JarRefit.Naming.Signature
