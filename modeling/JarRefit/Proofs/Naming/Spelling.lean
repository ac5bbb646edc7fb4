import JarRefit.Proofs.Naming.Signature
import JarRefit.Proofs.Text.Split

/-!
# Signatures that can be told apart

In a signature whose names hold none of the characters that end them, every part can be told from
what stands behind it. So no two such signatures are written alike.

## Main definitions

* `TypeSig.Spelled`, `Signature.Spelled`: the trees that are told apart, when their class names are
  such as are asked for.
* `Signature.Readable`: the trees that are told apart, where a last type parameter may have no
  bounds.
* `Closes`: what can stand behind the bounds of a type parameter.
-/
namespace JarRefit.Naming

open Text (StartsIn)

/-! ## Spelling -/

namespace Signature

/-- The characters that a type can start with. -/
def typeHeads : List Char := 'L' :: 'T' :: '[' :: baseLetters

/-- Whether no character of a name ends it. -/
def Unbroken (name : String) : Prop :=
  ∀ c ∈ name.toList, c ∉ nameStops

end Signature

open Signature

mutual

/-- Whether the names in a type are such as are asked for, and its letters can be read. -/
def TypeSig.Spelled (ok : String → Prop) : TypeSig → Prop
  | .base letter => letter ∈ baseLetters
  | .variable name => ';' ∉ name.toList
  | .array element => element.Spelled ok
  | .cls name args inner => ok name ∧ args.Spelled ok ∧ inner.Spelled ok

def TypeArgs.Spelled (ok : String → Prop) : TypeArgs → Prop
  | .absent => True
  | .present args => args.Spelled ok

def TypeArgList.Spelled (ok : String → Prop) : TypeArgList → Prop
  | .nil => True
  | .any rest => rest.Spelled ok
  | .type bound t rest => (∀ b ∈ bound, b = '+' ∨ b = '-') ∧ t.Spelled ok ∧ rest.Spelled ok

def InnerSegments.Spelled (ok : String → Prop) : InnerSegments → Prop
  | .nil => True
  | .cons name args rest => ok name ∧ args.Spelled ok ∧ rest.Spelled ok

end

variable {ok : String → Prop} {r r' : List Char}

/-! ## How the parts start -/

theorem TypeSig.startsIn_print {t : TypeSig} (ht : t.Spelled ok) (r : List Char) :
    StartsIn typeHeads (t.print r) := by
  cases t with
  | base letter => exact ⟨letter, by simp [typeHeads, show letter ∈ baseLetters from ht], r, rfl⟩
  | _ => exact ⟨_, by decide, _, rfl⟩

theorem InnerSegments.startsIn_print (inner : InnerSegments) (r : List Char) :
    StartsIn ['.', ';'] (inner.print (';' :: r)) := by
  cases inner <;> exact ⟨_, by decide, _, rfl⟩

theorem TypeArgs.startsIn_print (args : TypeArgs) (hr : StartsIn ['.', ';'] r) :
    StartsIn nameStops (args.print r) := by
  cases args with
  | absent =>
    obtain ⟨c, hc, rest, rfl⟩ := hr
    exact ⟨c, List.mem_cons_of_mem _ hc, rest, rfl⟩
  | present => exact ⟨_, by decide, _, rfl⟩

/-- A type starts with none but the characters that a type can start with. -/
theorem TypeSig.print_ne_cons {t : TypeSig} (ht : t.Spelled ok) {c : Char} (hc : c ∉ typeHeads) :
    t.print r ≠ c :: r' := by
  obtain ⟨d, hd, rest, heq⟩ := TypeSig.startsIn_print ht r
  intro h
  obtain ⟨rfl, -⟩ := List.cons.inj (heq.symm.trans h)
  exact hc hd

/-! ## One tree for one text -/

mutual

theorem TypeSig.print_inj (hok : ∀ name, ok name → Unbroken name) {t t' : TypeSig}
    (ht : t.Spelled ok) (ht' : t'.Spelled ok) {r r' : List Char} (h : t.print r = t'.print r') :
    t = t' ∧ r = r' := by
  match t, t' with
  | .base letter, .base letter' => simpa [TypeSig.print] using h
  | .variable name, .variable name' =>
    obtain ⟨hname, rfl⟩ := (Text.append_cons_inj ht ht').1 (List.cons.inj h).2
    exact ⟨by rw [String.toList_inj.1 hname], rfl⟩
  | .array element, .array element' =>
    obtain ⟨helement, rfl⟩ := TypeSig.print_inj hok (show element.Spelled ok from ht)
      (show element'.Spelled ok from ht') (List.cons.inj h).2
    exact ⟨by rw [helement], rfl⟩
  | .cls name args inner, .cls name' args' inner' =>
    obtain ⟨hname, hargs, hinner⟩ := ht
    obtain ⟨hname', hargs', hinner'⟩ := ht'
    obtain ⟨heq, h⟩ := Text.append_inj_of_startsIn (hok _ hname) (hok _ hname')
      (args.startsIn_print (inner.startsIn_print r))
      (args'.startsIn_print (inner'.startsIn_print r')) (List.cons.inj h).2
    obtain ⟨heqArgs, h⟩ := TypeArgs.print_inj hok hargs hargs' (inner.startsIn_print r)
      (inner'.startsIn_print r') h
    obtain ⟨heqInner, rfl⟩ := InnerSegments.print_inj hok hinner hinner' h
    exact ⟨by rw [String.toList_inj.1 heq, heqArgs, heqInner], rfl⟩
  | .base _, .variable _ | .base _, .array _ | .base _, .cls .. =>
    obtain ⟨rfl, -⟩ := List.cons.inj h
    exact absurd (show _ ∈ baseLetters from ht) (by decide)
  | .variable _, .base _ | .array _, .base _ | .cls .., .base _ =>
    obtain ⟨rfl, -⟩ := List.cons.inj h
    exact absurd (show _ ∈ baseLetters from ht') (by decide)
  | .variable _, .array _ | .variable _, .cls .. | .array _, .variable _ | .array _, .cls ..
  | .cls .., .variable _ | .cls .., .array _ => exact absurd (List.cons.inj h).1 (by decide)

theorem TypeArgs.print_inj (hok : ∀ name, ok name → Unbroken name) {args args' : TypeArgs}
    (h : args.Spelled ok) (h' : args'.Spelled ok) {r r' : List Char} (hr : StartsIn ['.', ';'] r)
    (hr' : StartsIn ['.', ';'] r') (heq : args.print r = args'.print r') :
    args = args' ∧ r = r' := by
  match args, args' with
  | .absent, .absent => exact ⟨rfl, heq⟩
  | .present args, .present args' =>
    obtain ⟨hargs, rfl⟩ := TypeArgList.print_inj hok h h' (List.cons.inj heq).2
    exact ⟨by rw [hargs], rfl⟩
  | .absent, .present _ =>
    obtain ⟨c, hc, _, rfl⟩ := hr
    obtain ⟨rfl, -⟩ := List.cons.inj heq
    exact absurd hc (by decide)
  | .present _, .absent =>
    obtain ⟨c, hc, _, rfl⟩ := hr'
    obtain ⟨rfl, -⟩ := List.cons.inj heq
    exact absurd hc (by decide)

theorem TypeArgList.print_inj (hok : ∀ name, ok name → Unbroken name) {args args' : TypeArgList}
    (h : args.Spelled ok) (h' : args'.Spelled ok) {r r' : List Char}
    (heq : args.print ('>' :: r) = args'.print ('>' :: r')) : args = args' ∧ r = r' := by
  match args, args' with
  | .nil, .nil => simpa [TypeArgList.print] using heq
  | .any rest, .any rest' =>
    obtain ⟨hrest, rfl⟩ := TypeArgList.print_inj hok (show rest.Spelled ok from h)
      (show rest'.Spelled ok from h') (List.cons.inj heq).2
    exact ⟨by rw [hrest], rfl⟩
  | .type none t rest, .type none t' rest' =>
    obtain ⟨hsame, heq⟩ := TypeSig.print_inj hok h.2.1 h'.2.1 heq
    obtain ⟨hrest, rfl⟩ := TypeArgList.print_inj hok h.2.2 h'.2.2 heq
    exact ⟨by rw [hsame, hrest], rfl⟩
  | .type (some b) t rest, .type (some b') t' rest' =>
    obtain ⟨hbound, heq⟩ := List.cons.inj heq
    obtain ⟨hsame, heq⟩ := TypeSig.print_inj hok h.2.1 h'.2.1 heq
    obtain ⟨hrest, rfl⟩ := TypeArgList.print_inj hok h.2.2 h'.2.2 heq
    exact ⟨by rw [hbound, hsame, hrest], rfl⟩
  | .nil, .any _ | .any _, .nil => exact absurd (List.cons.inj heq).1 (by decide)
  | .nil, .type (some b) .. | .any _, .type (some b) .. =>
    obtain ⟨rfl, -⟩ := List.cons.inj heq
    exact absurd (h'.1 _ rfl) (by decide)
  | .type (some b) .., .nil | .type (some b) .., .any _ =>
    obtain ⟨rfl, -⟩ := List.cons.inj heq
    exact absurd (h.1 _ rfl) (by decide)
  | .type none t _, .nil | .type none t _, .any _ =>
    exact absurd heq (TypeSig.print_ne_cons h.2.1 (by decide))
  | .nil, .type none t _ | .any _, .type none t _ =>
    exact absurd heq.symm (TypeSig.print_ne_cons h'.2.1 (by decide))
  | .type none t _, .type (some b) .. =>
    refine absurd heq (TypeSig.print_ne_cons h.2.1 ?_)
    rcases h'.1 b rfl with rfl | rfl <;> decide
  | .type (some b) .., .type none t _ =>
    refine absurd heq.symm (TypeSig.print_ne_cons h'.2.1 ?_)
    rcases h.1 b rfl with rfl | rfl <;> decide

theorem InnerSegments.print_inj (hok : ∀ name, ok name → Unbroken name)
    {inner inner' : InnerSegments} (h : inner.Spelled ok) (h' : inner'.Spelled ok)
    {r r' : List Char} (heq : inner.print (';' :: r) = inner'.print (';' :: r')) :
    inner = inner' ∧ r = r' := by
  match inner, inner' with
  | .nil, .nil => simpa [InnerSegments.print] using heq
  | .cons name args rest, .cons name' args' rest' =>
    obtain ⟨hname, hargs, hrest⟩ := h
    obtain ⟨hname', hargs', hrest'⟩ := h'
    obtain ⟨hnames, heq⟩ := Text.append_inj_of_startsIn (hok _ hname) (hok _ hname')
      (args.startsIn_print (rest.startsIn_print r)) (args'.startsIn_print (rest'.startsIn_print r'))
      (List.cons.inj heq).2
    obtain ⟨heqArgs, heq⟩ := TypeArgs.print_inj hok hargs hargs' (rest.startsIn_print r)
      (rest'.startsIn_print r') heq
    obtain ⟨heqRest, rfl⟩ := InnerSegments.print_inj hok hrest hrest' heq
    exact ⟨by rw [String.toList_inj.1 hnames, heqArgs, heqRest], rfl⟩
  | .nil, .cons .. | .cons .., .nil => exact absurd (List.cons.inj heq).1 (by decide)

end

/-! ## Signatures -/

namespace Signature

/-- The parts of a signature that are no types. -/
def marks : List Char := ['(', ')', '^', 'V']

/-- The characters that end the name of a type parameter. -/
def parameterStops : List Char := [':', '>', ';']

end Signature

theorem not_mem_typeHeads_of_mem_marks {c : Char} (h : c ∈ marks) : c ∉ typeHeads := by
  simp only [marks, List.mem_cons, List.not_mem_nil, or_false] at h
  rcases h with rfl | rfl | rfl | rfl <;> decide

/-- Whether a part can be read. -/
def SignaturePart.Spelled (ok : String → Prop) : SignaturePart → Prop
  | .mark c => c ∈ marks
  | .type t => t.Spelled ok

/-- Whether a type parameter has a name that ends where its bounds start. -/
structure TypeParameter.Spelled (ok : String → Prop) (p : TypeParameter) : Prop where
  named : p.name ≠ ""
  unbroken : ∀ c ∈ p.name.toList, c ∉ parameterStops
  bounded : p.bounds ≠ []
  bounds : ∀ t, some t ∈ p.bounds → t.Spelled ok

/-- Whether type parameters can be told apart: only the last one ends with a bound that is left
out. -/
def SpelledParameters (ok : String → Prop) : List TypeParameter → Prop
  | [] => True
  | p :: ps => p.Spelled ok ∧ (p.bounds.getLast? = some none → ps = []) ∧ SpelledParameters ok ps

/-- Whether the type parameters and the parts can be read. -/
structure Signature.Spelled (ok : String → Prop) (s : Signature) : Prop where
  parameters : ∀ ps, s.parameters = some ps → SpelledParameters ok ps
  parts : ∀ p ∈ s.parts, p.Spelled ok

/-- Whether a type parameter has a name that ends where its bounds start, if it has any. -/
structure TypeParameter.Readable (ok : String → Prop) (p : TypeParameter) : Prop where
  named : p.name ≠ ""
  unbroken : ∀ c ∈ p.name.toList, c ∉ parameterStops
  bounds : ∀ t, some t ∈ p.bounds → t.Spelled ok

/-- Whether type parameters can be told apart: only the last one has no bounds or ends with one that
is left out. -/
def ReadableParameters (ok : String → Prop) : List TypeParameter → Prop
  | [] => True
  | p :: ps => p.Readable ok ∧ (p.bounds.getLast?.join = none → ps = []) ∧ ReadableParameters ok ps

/-- Whether the type parameters and the parts can be read, which need not follow the grammar. -/
structure Signature.Readable (ok : String → Prop) (s : Signature) : Prop where
  parameters : ∀ ps, s.parameters = some ps → ReadableParameters ok ps
  parts : ∀ p ∈ s.parts, p.Spelled ok

theorem SpelledParameters.readable {ps : List TypeParameter} (h : SpelledParameters ok ps) :
    ReadableParameters ok ps := by
  induction ps with
  | nil => trivial
  | cons p ps ih =>
    obtain ⟨hp, hlast, hps⟩ := h
    refine ⟨⟨hp.named, hp.unbroken, hp.bounds⟩, fun hnone => hlast ?_, ih hps⟩
    rw [List.getLast?_eq_some_getLast hp.bounded] at hnone ⊢
    exact congrArg some hnone

theorem Signature.Spelled.readable {s : Signature} (h : s.Spelled ok) : s.Readable ok :=
  ⟨fun ps hps => (h.parameters ps hps).readable, h.parts⟩

/-! ### Bounds -/

/-- Bounds in front of a text. -/
def printBounds (bounds : List (Option TypeSig)) (cs : List Char) : List Char :=
  bounds.foldr (fun bound cs => ':' :: bound.elim cs (·.print cs)) cs

/-- Whether a text can stand behind bounds: it brings no further bound, and it is the end of the
parameters if the last bound is left out. -/
def Closes (bounds : List (Option TypeSig)) (cs : List Char) : Prop :=
  ∃ c rest, cs = c :: rest ∧ c ≠ ':' ∧ (bounds.getLast? = some none → c = '>')

variable {bound : Option TypeSig} {bounds bounds' : List (Option TypeSig)} {cs cs' : List Char}

theorem Closes.tail (h : Closes (bound :: bounds) cs) : Closes bounds cs := by
  obtain ⟨c, rest, rfl, hc, hlast⟩ := h
  refine ⟨c, rest, rfl, hc, fun hnone => hlast ?_⟩
  rw [List.getLast?_cons, hnone, Option.getD_some]

theorem Closes.startsIn (h : Closes (none :: bounds) cs) :
    StartsIn [':', '>'] (printBounds bounds cs) := by
  cases bounds with
  | nil =>
    obtain ⟨c, rest, rfl, -, hlast⟩ := h
    exact ⟨c, by simp [hlast rfl], rest, rfl⟩
  | cons => exact ⟨':', by simp, _, rfl⟩

theorem Closes.print_ne (h : Closes (none :: bounds) cs) {t : TypeSig} (ht : t.Spelled ok) :
    t.print r ≠ printBounds bounds cs := by
  obtain ⟨c, hc, rest, heq⟩ := h.startsIn
  rw [heq]
  obtain rfl | rfl : c = ':' ∨ c = '>' := by simpa using hc
  all_goals exact TypeSig.print_ne_cons ht (by decide)

theorem printBounds_inj (hok : ∀ name, ok name → Unbroken name)
    (h : ∀ t, some t ∈ bounds → t.Spelled ok) (h' : ∀ t, some t ∈ bounds' → t.Spelled ok)
    (hcs : Closes bounds cs) (hcs' : Closes bounds' cs')
    (heq : printBounds bounds cs = printBounds bounds' cs') : bounds = bounds' ∧ cs = cs' := by
  induction bounds generalizing bounds' with
  | nil =>
    cases bounds' with
    | nil => exact ⟨rfl, heq⟩
    | cons =>
      obtain ⟨c, rest, rfl, hc, -⟩ := hcs
      exact absurd (List.cons.inj heq).1 hc
  | cons bound bounds ih =>
    cases bounds' with
    | nil =>
      obtain ⟨c, rest, rfl, hc, -⟩ := hcs'
      exact absurd (List.cons.inj heq).1.symm hc
    | cons bound' bounds' =>
      have hbounds := fun t ht => h t (List.mem_cons_of_mem bound ht)
      have hbounds' := fun t ht => h' t (List.mem_cons_of_mem bound' ht)
      have heq := (List.cons.inj heq).2
      match bound, bound' with
      | none, none =>
        obtain ⟨hrest, rfl⟩ := ih hbounds hbounds' hcs.tail hcs'.tail heq
        exact ⟨by rw [hrest], rfl⟩
      | some t, some t' =>
        obtain ⟨hsame, heq⟩ := TypeSig.print_inj hok (h t (by simp)) (h' t' (by simp)) heq
        obtain ⟨hrest, rfl⟩ := ih hbounds hbounds' hcs.tail hcs'.tail heq
        exact ⟨by rw [hsame, hrest], rfl⟩
      | none, some t' => exact absurd heq.symm (hcs.print_ne (h' t' (by simp)))
      | some t, none => exact absurd heq (hcs'.print_ne (h t (by simp)))

/-! ### Parameters and parts -/

variable {p : TypeParameter} {ps ps' : List TypeParameter}

theorem TypeParameter.print_eq (p : TypeParameter) (cs : List Char) :
    p.print cs = p.name.toList ++ printBounds p.bounds cs := rfl

/-- A type parameter starts with a character of its name. -/
theorem TypeParameter.Readable.head (h : p.Readable ok) (cs : List Char) :
    ∃ c rest, p.print cs = c :: rest ∧ c ∉ parameterStops := by
  obtain ⟨c, rest, hname⟩ : ∃ c rest, p.name.toList = c :: rest :=
    List.exists_cons_of_ne_nil (by simpa using h.named)
  exact ⟨c, _, by rw [TypeParameter.print_eq, hname, List.cons_append],
    h.unbroken c (by simp [hname])⟩

theorem closes_parameters (h : ReadableParameters ok (p :: ps)) (cs : List Char) :
    Closes p.bounds (ps.foldr TypeParameter.print ('>' :: cs)) := by
  obtain ⟨-, hlast, hps⟩ := h
  cases ps with
  | nil => exact ⟨'>', cs, rfl, by decide, fun _ => rfl⟩
  | cons q ps =>
    obtain ⟨c, rest, heq, hc⟩ := hps.1.head (ps.foldr TypeParameter.print ('>' :: cs))
    refine ⟨c, rest, heq, ?_, fun hnone => ?_⟩
    · rintro rfl
      exact hc (by decide)
    · exact absurd (hlast (by rw [hnone]; rfl)) (List.cons_ne_nil _ _)

/-- The name of a type parameter ends where its bounds start, or at the end of the parameters. -/
theorem startsIn_parameters (h : ReadableParameters ok (p :: ps)) (cs : List Char) :
    StartsIn parameterStops (printBounds p.bounds (ps.foldr TypeParameter.print ('>' :: cs))) := by
  obtain ⟨-, hlast, -⟩ := h
  cases hbounds : p.bounds with
  | nil =>
    obtain rfl := hlast (by rw [hbounds]; rfl)
    exact ⟨'>', by decide, _, rfl⟩
  | cons => exact ⟨':', by decide, _, rfl⟩

theorem parameters_print_inj (hok : ∀ name, ok name → Unbroken name)
    (h : ReadableParameters ok ps) (h' : ReadableParameters ok ps')
    (heq : ps.foldr TypeParameter.print ('>' :: cs) = ps'.foldr TypeParameter.print ('>' :: cs')) :
    ps = ps' ∧ cs = cs' := by
  induction ps generalizing ps' with
  | nil =>
    cases ps' with
    | nil => exact ⟨rfl, (List.cons.inj heq).2⟩
    | cons p' ps' =>
      obtain ⟨c, rest, hhead, hc⟩ := h'.1.head (ps'.foldr TypeParameter.print ('>' :: cs'))
      obtain ⟨rfl, -⟩ := List.cons.inj (heq.trans hhead)
      exact absurd (by decide) hc
  | cons p ps ih =>
    cases ps' with
    | nil =>
      obtain ⟨c, rest, hhead, hc⟩ := h.1.head (ps.foldr TypeParameter.print ('>' :: cs))
      obtain ⟨rfl, -⟩ := List.cons.inj (heq.symm.trans hhead)
      exact absurd (by decide) hc
    | cons p' ps' =>
      obtain ⟨hname, heq⟩ := Text.append_inj_of_startsIn h.1.unbroken h'.1.unbroken
        (startsIn_parameters h _) (startsIn_parameters h' _) heq
      obtain ⟨hbounds, heq⟩ := printBounds_inj hok h.1.bounds h'.1.bounds (closes_parameters h cs)
        (closes_parameters h' cs') heq
      obtain ⟨rfl, hcs⟩ := ih h.2.2 h'.2.2 heq
      have hp : p = p' := by
        cases p
        cases p'
        simp_all [String.toList_inj]
      exact ⟨by rw [hp], hcs⟩

theorem SignaturePart.print_ne_nil {part : SignaturePart} (h : part.Spelled ok) :
    part.print cs ≠ [] := by
  cases part with
  | mark c => exact List.cons_ne_nil _ _
  | type t =>
    obtain ⟨c, -, rest, heq⟩ := TypeSig.startsIn_print h cs
    exact fun hnil => List.cons_ne_nil _ _ (heq.symm.trans hnil)

theorem parts_print_inj (hok : ∀ name, ok name → Unbroken name) {parts parts' : List SignaturePart}
    (h : ∀ p ∈ parts, p.Spelled ok) (h' : ∀ p ∈ parts', p.Spelled ok)
    (heq : parts.foldr SignaturePart.print [] = parts'.foldr SignaturePart.print []) :
    parts = parts' := by
  induction parts generalizing parts' with
  | nil =>
    cases parts' with
    | nil => rfl
    | cons part' parts' => exact absurd heq.symm (SignaturePart.print_ne_nil (h' part' (by simp)))
  | cons part parts ih =>
    cases parts' with
    | nil => exact absurd heq (SignaturePart.print_ne_nil (h part (by simp)))
    | cons part' parts' =>
      have hpart := h part (by simp)
      have hpart' := h' part' (by simp)
      have hrest := fun q hq => h q (List.mem_cons_of_mem part hq)
      have hrest' := fun q hq => h' q (List.mem_cons_of_mem part' hq)
      match part, part' with
      | .mark c, .mark c' =>
        obtain ⟨hmark, heq⟩ := List.cons.inj heq
        rw [hmark, ih hrest hrest' heq]
      | .type t, .type t' =>
        obtain ⟨htype, heq⟩ := TypeSig.print_inj hok hpart hpart' heq
        rw [htype, ih hrest hrest' heq]
      | .mark c, .type t' =>
        refine absurd heq.symm (TypeSig.print_ne_cons hpart' ?_)
        exact not_mem_typeHeads_of_mem_marks hpart
      | .type t, .mark c' =>
        refine absurd heq (TypeSig.print_ne_cons hpart ?_)
        exact not_mem_typeHeads_of_mem_marks hpart'

/-- The parts of a signature never start with a bracket that opens type parameters. -/
theorem parts_print_ne_cons {parts : List SignaturePart} (h : ∀ p ∈ parts, p.Spelled ok) :
    parts.foldr SignaturePart.print [] ≠ '<' :: cs := by
  cases parts with
  | nil => exact (List.cons_ne_nil _ _).symm
  | cons part parts =>
    have hpart := h part (by simp)
    cases part with
    | mark c =>
      intro heq
      obtain ⟨rfl, -⟩ := List.cons.inj heq
      exact absurd (show _ ∈ marks from hpart) (by decide)
    | type t => exact TypeSig.print_ne_cons hpart (by decide)

/-- Two trees with the same text are one. -/
theorem Signature.print_inj (hok : ∀ name, ok name → Unbroken name) {s s' : Signature}
    (h : s.Readable ok) (h' : s'.Readable ok) (heq : s.print = s'.print) : s = s' := by
  obtain ⟨parameters, parts⟩ := s
  obtain ⟨parameters', parts'⟩ := s'
  match parameters, parameters' with
  | none, none =>
    obtain rfl := parts_print_inj hok h.parts h'.parts heq
    rfl
  | some ps, some ps' =>
    obtain ⟨rfl, heq⟩ := parameters_print_inj hok (h.parameters ps rfl) (h'.parameters ps' rfl)
      (List.cons.inj heq).2
    obtain rfl := parts_print_inj hok h.parts h'.parts heq
    rfl
  | none, some ps' => exact absurd heq (parts_print_ne_cons h.parts)
  | some ps, none => exact absurd heq.symm (parts_print_ne_cons h'.parts)

end JarRefit.Naming
