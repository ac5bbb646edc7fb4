import JarRefit.Proofs.Naming.Spelling

/-!
# Signatures that are read

Every signature that can be told apart and has no empty class name is read as what was printed.

## Main definitions

* `Signature.Named`: the class names that the reader takes.
-/
namespace JarRefit.Naming

open Text (StartsIn)
open Signature

/-! ## Lengths -/

mutual

theorem TypeSig.length_lt (t : TypeSig) (r : List Char) : r.length < (t.print r).length := by
  cases t with
  | base letter => simp [TypeSig.print]
  | array element =>
    have := element.length_lt r
    simp only [TypeSig.print, List.length_cons]
    omega
  | cls name args inner =>
    have := args.length_le (inner.print (';' :: r))
    have := inner.length_le (';' :: r)
    simp only [TypeSig.print, List.length_cons, List.length_append] at *
    omega
  | _ =>
    simp only [TypeSig.print, List.length_cons, List.length_append]
    omega

theorem TypeArgs.length_le (args : TypeArgs) (r : List Char) :
    r.length ≤ (args.print r).length := by
  cases args with
  | absent => exact Nat.le_refl _
  | present args =>
    have := args.length_le ('>' :: r)
    simp only [TypeArgs.print, List.length_cons] at *
    omega

theorem TypeArgList.length_le (args : TypeArgList) (r : List Char) :
    r.length ≤ (args.print r).length := by
  cases args with
  | nil => exact Nat.le_refl _
  | any rest =>
    have := rest.length_le r
    simp only [TypeArgList.print, List.length_cons]
    omega
  | type bound t rest =>
    have := t.length_lt (rest.print r)
    have := rest.length_le r
    simp only [TypeArgList.print, List.length_append]
    omega

theorem InnerSegments.length_le (inner : InnerSegments) (r : List Char) :
    r.length ≤ (inner.print r).length := by
  cases inner with
  | nil => exact Nat.le_refl _
  | cons name args rest =>
    have := args.length_le (rest.print r)
    have := rest.length_le r
    simp only [InnerSegments.print, List.length_cons, List.length_append]
    omega

end

/-! ## Names -/

namespace Signature

/-- Whether a class name can be read: it is not empty, and none of its characters ends it. -/
def Named (name : String) : Prop :=
  name ≠ "" ∧ Unbroken name

theorem identifier?_append {stops : List Char} {name : String} {r : List Char} (hname : name ≠ "")
    (hstops : ∀ c ∈ name.toList, c ∉ stops) (hr : StartsIn stops r) :
    identifier? stops (name.toList ++ r) = some (name, r) := by
  obtain ⟨htake, hdrop⟩ := Text.span_append hstops hr
  obtain ⟨c, -, rest, rfl⟩ := hr
  rw [identifier?, htake, hdrop]
  simpa using hname

theorem length_toList_pos {name : String} (h : name ≠ "") : 0 < name.toList.length :=
  List.length_pos_iff.2 (by simpa using h)

end Signature

/-! ## Types

A text of `n` characters needs fuel for two readers a character, and one less where a type starts,
since the reader of type arguments hands its text on to the reader of types. -/

theorem exists_fuel {fuel n : Nat} (hn : 0 < n) (h : 2 * n ≤ fuel + 1) : ∃ m, fuel = m + 1 :=
  Nat.exists_eq_add_one.2 (by omega)

mutual

theorem TypeSig.type?_print (t : TypeSig) (ht : t.Spelled Named) (fuel : Nat) (r : List Char)
    (hfuel : 2 * (t.print r).length ≤ fuel + 1) : type? fuel (t.print r) = some (t, r) := by
  obtain ⟨fuel, rfl⟩ := exists_fuel (Nat.zero_lt_of_lt (t.length_lt r)) hfuel
  match t with
  | .base letter =>
    have ht : letter ∈ baseLetters := ht
    simp only [baseLetters, List.mem_cons, List.not_mem_nil, or_false] at ht
    rcases ht with rfl | rfl | rfl | rfl | rfl | rfl | rfl | rfl <;> rfl
  | .variable name =>
    have ht : ';' ∉ name.toList := ht
    simp [TypeSig.print, type?, Text.cut?_append ht]
  | .array element =>
    simp only [TypeSig.print, List.length_cons] at hfuel
    have helement := element.type?_print ht fuel r (by omega)
    simp [TypeSig.print, type?, helement]
  | .cls name args inner =>
    obtain ⟨hname, hargs, hinner⟩ := ht
    have := length_toList_pos hname.1
    have := args.length_le (inner.print (';' :: r))
    simp only [TypeSig.print, List.length_cons, List.length_append] at hfuel
    have hsegments := inner.startsIn_print r
    have hreadName := identifier?_append hname.1 hname.2 (args.startsIn_print hsegments)
    have hreadArgs := args.args?_print hargs fuel _ hsegments (by omega)
    have hreadInner := inner.inner?_print hinner fuel r (by omega)
    simp [TypeSig.print, type?, hreadName, hreadArgs, hreadInner]

theorem TypeArgs.args?_print (args : TypeArgs) (h : args.Spelled Named) (fuel : Nat)
    (r : List Char) (hr : StartsIn ['.', ';'] r) (hfuel : 2 * (args.print r).length ≤ fuel) :
    args? fuel (args.print r) = some (args, r) := by
  obtain ⟨c, hc, rest, rfl⟩ := hr
  have := args.length_le (c :: rest)
  simp only [List.length_cons] at this
  obtain ⟨fuel, rfl⟩ := exists_fuel (by omega) (Nat.le_succ_of_le hfuel)
  match args with
  | .absent =>
    obtain rfl | rfl : c = '.' ∨ c = ';' := by simpa using hc
    all_goals rfl
  | .present args =>
    simp only [TypeArgs.print, List.length_cons] at hfuel
    have hreadArgs := args.argList?_print h fuel (c :: rest) (by omega)
    simp [TypeArgs.print, args?, hreadArgs]

theorem TypeArgList.argList?_print (args : TypeArgList) (h : args.Spelled Named) (fuel : Nat)
    (r : List Char) (hfuel : 2 * (args.print ('>' :: r)).length ≤ fuel) :
    argList? fuel (args.print ('>' :: r)) = some (args, r) := by
  have := args.length_le ('>' :: r)
  simp only [List.length_cons] at this
  obtain ⟨fuel, rfl⟩ := exists_fuel (by omega) (Nat.le_succ_of_le hfuel)
  match args with
  | .nil => rfl
  | .any rest =>
    simp only [TypeArgList.print, List.length_cons] at hfuel
    have hrest := rest.argList?_print h fuel r (by omega)
    simp [TypeArgList.print, argList?, hrest]
  | .type none t rest =>
    obtain ⟨-, ht, hrest⟩ := h
    have hlength := t.length_lt (rest.print ('>' :: r))
    have hreadType := t.type?_print ht fuel (rest.print ('>' :: r))
    have hreadRest := rest.argList?_print hrest fuel r
    -- The first character of a type is none of those that the reader looks for.
    obtain ⟨c, hc, after, heq⟩ := TypeSig.startsIn_print ht (rest.print ('>' :: r))
    have hother : c ≠ '>' ∧ c ≠ '*' ∧ c ≠ '+' ∧ c ≠ '-' := by
      refine ⟨?_, ?_, ?_, ?_⟩ <;> rintro rfl <;> exact absurd hc (by decide)
    have hprint : (TypeArgList.type none t rest).print ('>' :: r) = c :: after := heq
    rw [hprint] at hfuel
    rw [heq] at hlength hreadType
    simp [hprint, argList?, hother, hreadType (by omega), hreadRest (by omega)]
  | .type (some b) t rest =>
    obtain ⟨hb, ht, hrest⟩ := h
    have := t.length_lt (rest.print ('>' :: r))
    simp only [TypeArgList.print, Option.toList, List.length_append, List.length_cons,
      List.length_nil] at hfuel
    have hreadType := t.type?_print ht fuel (rest.print ('>' :: r)) (by omega)
    have hreadRest := rest.argList?_print hrest fuel r (by omega)
    rcases hb b rfl with rfl | rfl <;>
      simp [TypeArgList.print, argList?, hreadType, hreadRest]

theorem InnerSegments.inner?_print (inner : InnerSegments) (h : inner.Spelled Named) (fuel : Nat)
    (r : List Char) (hfuel : 2 * (inner.print (';' :: r)).length ≤ fuel) :
    inner? fuel (inner.print (';' :: r)) = some (inner, ';' :: r) := by
  have := inner.length_le (';' :: r)
  simp only [List.length_cons] at this
  obtain ⟨fuel, rfl⟩ := exists_fuel (by omega) (Nat.le_succ_of_le hfuel)
  match inner with
  | .nil => rfl
  | .cons name args rest =>
    obtain ⟨hname, hargs, hrest⟩ := h
    have := length_toList_pos hname.1
    have := args.length_le (rest.print (';' :: r))
    simp only [InnerSegments.print, List.length_cons, List.length_append] at hfuel
    have hsegments := rest.startsIn_print r
    have hreadName := identifier?_append hname.1 hname.2 (args.startsIn_print hsegments)
    have hreadArgs := args.args?_print hargs fuel _ hsegments (by omega)
    have hreadRest := rest.inner?_print hrest fuel r (by omega)
    simp [InnerSegments.print, inner?, hreadName, hreadArgs, hreadRest]

end

/-! ## Signatures -/

namespace Signature

variable {fuel : Nat} {cs : List Char} {bounds : List (Option TypeSig)} {p : TypeParameter}
  {ps : List TypeParameter}

theorem length_le_printBounds (bounds : List (Option TypeSig)) (cs : List Char) :
    cs.length ≤ (printBounds bounds cs).length := by
  induction bounds with
  | nil => exact Nat.le_refl _
  | cons bound bounds ih =>
    cases bound with
    | none => exact Nat.le_succ_of_le ih
    | some t => exact Nat.le_succ_of_le (Nat.le_trans ih (Nat.le_of_lt (t.length_lt _)))

/-- A colon in front of another one or of the end is a bound that is left out. -/
theorem bounds?_cons_none {d : Char} (hd : d = ':' ∨ d = '>') :
    bounds? (fuel + 1) (':' :: d :: cs) =
      (bounds? fuel (d :: cs)).map fun (bounds, rest) => (none :: bounds, rest) := by
  rw [bounds?]
  simp only [Bool.or_eq_true, decide_eq_true_eq, hd, if_true]
  cases bounds? fuel (d :: cs) <;> rfl

/-- A colon in front of anything else starts a bound. -/
theorem bounds?_cons_some {d : Char} (hd : ¬ (d = ':' ∨ d = '>')) {t : TypeSig} {rest : List Char}
    (ht : type? (fuel + 1) (d :: cs) = some (t, rest)) :
    bounds? (fuel + 1) (':' :: d :: cs) =
      (bounds? fuel rest).map fun (bounds, rest) => (some t :: bounds, rest) := by
  rw [bounds?]
  simp only [Bool.or_eq_true, decide_eq_true_eq, hd, if_false, ht]
  cases hread : bounds? fuel rest <;> simp [hread]

theorem length_printBounds_pos (hcs : Closes bounds cs) : 0 < (printBounds bounds cs).length := by
  obtain ⟨c, rest, rfl, -⟩ := hcs
  exact Nat.lt_of_lt_of_le (by simp) (length_le_printBounds bounds _)

theorem bounds?_print (h : ∀ t, some t ∈ bounds → t.Spelled Named) (hcs : Closes bounds cs)
    (hfuel : 2 * (printBounds bounds cs).length ≤ fuel) :
    bounds? fuel (printBounds bounds cs) = some (bounds, cs) := by
  induction bounds generalizing fuel with
  | nil =>
    obtain ⟨fuel, rfl⟩ := exists_fuel (length_printBounds_pos hcs) (Nat.le_succ_of_le hfuel)
    obtain ⟨c, rest, rfl, hc, -⟩ := hcs
    simp [printBounds, bounds?]
  | cons bound bounds ih =>
    obtain ⟨fuel, rfl⟩ := exists_fuel (length_printBounds_pos hcs) (Nat.le_succ_of_le hfuel)
    have hbounds := fun t ht => h t (List.mem_cons_of_mem bound ht)
    cases bound with
    | none =>
      have hprint : printBounds (none :: bounds) cs = ':' :: printBounds bounds cs := rfl
      rw [hprint, List.length_cons] at hfuel
      have hread : bounds? fuel _ = _ := ih hbounds hcs.tail (by omega)
      obtain ⟨d, hd, rest, heq⟩ := hcs.startsIn
      rw [heq] at hread
      rw [hprint, heq, bounds?_cons_none (by simpa using hd), hread]
      rfl
    | some t =>
      have ht := h t (by simp)
      have hlt := t.length_lt (printBounds bounds cs)
      have hprint : printBounds (some t :: bounds) cs = ':' :: t.print (printBounds bounds cs) :=
        rfl
      rw [hprint, List.length_cons] at hfuel
      have htype := t.type?_print ht (fuel + 1) (printBounds bounds cs) (by omega)
      have hread : bounds? fuel _ = _ := ih hbounds hcs.tail (by omega)
      obtain ⟨d, hd, rest, heq⟩ := TypeSig.startsIn_print ht (printBounds bounds cs)
      have hother : ¬ (d = ':' ∨ d = '>') := by
        rintro (rfl | rfl) <;> exact absurd hd (by decide)
      rw [heq] at htype
      rw [hprint, heq, bounds?_cons_some hother htype, hread]
      rfl

theorem parameters?_cons {c : Char} (hc : c ≠ '>') :
    parameters? (fuel + 1) (c :: cs) = (do
      let (name, cs) ← identifier? parameterStops (c :: cs)
      let (bounds, cs) ← bounds? (fuel + 1) cs
      let (rest, cs) ← parameters? fuel cs
      some (⟨name, bounds⟩ :: rest, cs)) := by
  rw [parameters?]
  · rfl
  · exact hc

theorem parameters?_print (h : ReadableParameters Named ps)
    (hfuel : 2 * (ps.foldr TypeParameter.print ('>' :: cs)).length ≤ fuel) :
    parameters? fuel (ps.foldr TypeParameter.print ('>' :: cs)) = some (ps, cs) := by
  induction ps generalizing fuel with
  | nil =>
    obtain ⟨fuel, rfl⟩ := exists_fuel (by simp) (Nat.le_succ_of_le hfuel)
    rfl
  | cons p ps ih =>
    have hp := h.1
    have hcloses := closes_parameters h cs
    rw [List.foldr_cons] at hfuel ⊢
    obtain ⟨c, rest, hhead, hc⟩ := hp.head (ps.foldr TypeParameter.print ('>' :: cs))
    have hlength := length_le_printBounds p.bounds (ps.foldr TypeParameter.print ('>' :: cs))
    have hname := length_toList_pos hp.named
    rw [TypeParameter.print_eq, List.length_append] at hfuel
    obtain ⟨fuel, rfl⟩ := exists_fuel (by omega) (Nat.le_succ_of_le hfuel)
    have hne : c ≠ '>' := by
      rintro rfl
      exact hc (by decide)
    have hreadBounds : bounds? (fuel + 1) _ = _ := bounds?_print hp.bounds hcloses (by omega)
    have hread : parameters? fuel _ = _ := ih h.2.2 (by omega)
    rw [hhead, parameters?_cons hne, ← hhead, TypeParameter.print_eq,
      identifier?_append hp.named hp.unbroken (startsIn_parameters h _)]
    simp [hreadBounds, hread]

theorem parts?_print {parts : List SignaturePart} (h : ∀ p ∈ parts, p.Spelled Named)
    (hfuel : 2 * (parts.foldr SignaturePart.print []).length ≤ fuel) :
    parts? fuel (parts.foldr SignaturePart.print []) = some parts := by
  induction parts generalizing fuel with
  | nil => cases fuel <;> rfl
  | cons part parts ih =>
    have hparts := fun q hq => h q (List.mem_cons_of_mem part hq)
    have hpart := h part (by simp)
    rw [List.foldr_cons] at hfuel ⊢
    cases part with
    | mark c =>
      rw [SignaturePart.print, List.length_cons] at hfuel
      obtain ⟨fuel, rfl⟩ := exists_fuel (Nat.succ_pos _) (Nat.le_succ_of_le hfuel)
      have hread : parts? fuel _ = _ := ih hparts (by omega)
      have hmark : c = '(' ∨ c = ')' ∨ c = '^' ∨ c = 'V' := by
        simpa [marks] using (show c ∈ marks from hpart)
      rcases hmark with rfl | rfl | rfl | rfl <;> simp [SignaturePart.print, parts?, hread]
    | type t =>
      have hlt := t.length_lt (parts.foldr SignaturePart.print [])
      rw [SignaturePart.print] at hfuel ⊢
      obtain ⟨fuel, rfl⟩ := exists_fuel (Nat.zero_lt_of_lt hlt) (Nat.le_succ_of_le hfuel)
      have hread : parts? fuel _ = _ := ih hparts (by omega)
      have htype := t.type?_print hpart (fuel + 1) (parts.foldr SignaturePart.print []) (by omega)
      -- The first character of a type is no mark.
      obtain ⟨c, hc, rest, heq⟩ := TypeSig.startsIn_print hpart (parts.foldr SignaturePart.print [])
      have hother : ¬ (c = '(' ∨ c = ')' ∨ c = '^' ∨ c = 'V') := by
        rintro (rfl | rfl | rfl | rfl) <;> exact absurd hc (by decide)
      rw [heq] at htype ⊢
      simp_all [parts?]

/-- What is printed for a signature is read as that signature. -/
theorem parse?_print {s : Signature} (h : s.Readable Named) : parse? s.print = some s := by
  obtain ⟨parameters, parts⟩ := s
  have hparts : parts? (fuelFor (parts.foldr SignaturePart.print [])) _ = some parts :=
    parts?_print h.parts (Nat.le_add_right _ 2)
  cases parameters with
  | none =>
    change parse? (parts.foldr SignaturePart.print []) = _
    unfold parse?
    split
    · next cs heq => exact absurd heq (parts_print_ne_cons h.parts)
    · rw [hparts]
      rfl
  | some ps =>
    let body := ps.foldr TypeParameter.print ('>' :: parts.foldr SignaturePart.print [])
    have hps : parameters? (fuelFor body) body = some (ps, parts.foldr SignaturePart.print []) :=
      parameters?_print (h.parameters ps rfl) (Nat.le_add_right _ 2)
    change parse? ('<' :: body) = _
    simp [parse?, hps, hparts]

end Signature

end JarRefit.Naming
