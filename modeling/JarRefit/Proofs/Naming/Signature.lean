import JarRefit.Naming.Signature

/-!
# Names in signatures

Renaming a signature asks for the new names of the classes in it, of the nested ones by the names of
the classes around them. So a signature whose classes keep their names stays.

## Main definitions

* `TypeSig.names`, `Signature.names`: the class names in a type and in a signature.
-/
namespace JarRefit.Naming

/-! ## Class names -/

mutual

/-- The names of the classes in a type, nested ones with the names of the classes around them. -/
def TypeSig.names : TypeSig → List String
  | .base _ | .variable _ => []
  | .array element => element.names
  | .cls name args inner => name :: (args.names ++ inner.names name)

def TypeArgs.names : TypeArgs → List String
  | .absent => []
  | .present args => args.names

def TypeArgList.names : TypeArgList → List String
  | .nil => []
  | .any rest => rest.names
  | .type _ t rest => t.names ++ rest.names

def InnerSegments.names (outer : String) : InnerSegments → List String
  | .nil => []
  | .cons name args rest =>
    (outer ++ "$" ++ name) :: (args.names ++ rest.names (outer ++ "$" ++ name))

end

def SignaturePart.names : SignaturePart → List String
  | .mark _ => []
  | .type t => t.names

def TypeParameter.names (p : TypeParameter) : List String :=
  p.bounds.flatMap fun bound => (bound.map TypeSig.names).getD []

/-- The names of the classes in a signature. -/
def Signature.names (s : Signature) : List String :=
  (s.parameters.getD []).flatMap TypeParameter.names ++ s.parts.flatMap SignaturePart.names

/-! ## Signatures that stay -/

variable {f : String → String}

theorem dropFront?_append (front cs : List Char) :
    Text.dropFront? front (front ++ cs) = some cs := by
  simp [Text.dropFront?]

/-- For a nested class the segment is written that its new name adds to the one around it. -/
theorem InnerSegments.rename_cons {old new name segment : String} (args : TypeArgs)
    (rest : InnerSegments) (h : f (old ++ "$" ++ name) = new ++ "$" ++ segment) :
    (InnerSegments.cons name args rest).rename f old new =
      .cons segment (args.rename f)
        (rest.rename f (old ++ "$" ++ name) (f (old ++ "$" ++ name))) := by
  have hfront : Text.dropFront? (new ++ "$").toList (f (old ++ "$" ++ name)).toList =
      some segment.toList := by
    rw [h, show (new ++ "$" ++ segment).toList = (new ++ "$").toList ++ segment.toList from
      String.toList_append, dropFront?_append]
  rw [InnerSegments.rename]
  simp only [hfront, String.ofList_toList]

mutual

theorem TypeSig.rename_eq_self (t : TypeSig) (h : ∀ name ∈ t.names, f name = name) :
    t.rename f = t := by
  cases t with
  | array element => rw [TypeSig.rename, TypeSig.rename_eq_self element h]
  | cls name args inner =>
    simp only [TypeSig.names, List.forall_mem_cons, List.forall_mem_append] at h
    obtain ⟨hname, hargs, hinner⟩ := h
    rw [TypeSig.rename, hname, TypeArgs.rename_eq_self args hargs,
      InnerSegments.rename_eq_self inner hinner]
  | _ => rfl

theorem TypeArgs.rename_eq_self (args : TypeArgs) (h : ∀ name ∈ args.names, f name = name) :
    args.rename f = args := by
  cases args with
  | absent => rfl
  | present args => rw [TypeArgs.rename, TypeArgList.rename_eq_self args h]

theorem TypeArgList.rename_eq_self (args : TypeArgList) (h : ∀ name ∈ args.names, f name = name) :
    args.rename f = args := by
  cases args with
  | nil => rfl
  | any rest => rw [TypeArgList.rename, TypeArgList.rename_eq_self rest h]
  | type bound t rest =>
    rw [TypeArgList.names, List.forall_mem_append] at h
    rw [TypeArgList.rename, TypeSig.rename_eq_self t h.1, TypeArgList.rename_eq_self rest h.2]

theorem InnerSegments.rename_eq_self (inner : InnerSegments) {outer : String}
    (h : ∀ name ∈ inner.names outer, f name = name) : inner.rename f outer outer = inner := by
  cases inner with
  | nil => rfl
  | cons name args rest =>
    simp only [InnerSegments.names, List.forall_mem_cons, List.forall_mem_append] at h
    obtain ⟨hnested, hargs, hrest⟩ := h
    rw [InnerSegments.rename_cons args rest hnested, hnested, TypeArgs.rename_eq_self args hargs,
      InnerSegments.rename_eq_self rest hrest]

end

theorem SignaturePart.rename_eq_self {p : SignaturePart} (h : ∀ name ∈ p.names, f name = name) :
    p.rename f = p := by
  cases p with
  | mark c => rfl
  | type t => rw [SignaturePart.rename, TypeSig.rename_eq_self t h]

theorem map_eq_self {α : Type} {g : α → α} {xs : List α} (h : ∀ x ∈ xs, g x = x) :
    xs.map g = xs := by
  rw [List.map_congr_left h, List.map_id']

theorem TypeParameter.rename_eq_self {p : TypeParameter} (h : ∀ name ∈ p.names, f name = name) :
    p.rename f = p := by
  have hbounds : p.bounds.map (·.map (·.rename f)) = p.bounds := by
    refine map_eq_self fun bound hbound => ?_
    cases bound with
    | none => rfl
    | some t =>
      rw [Option.map_some, TypeSig.rename_eq_self t fun name hname =>
        h name (List.mem_flatMap.2 ⟨some t, hbound, hname⟩)]
  rw [TypeParameter.rename, hbounds]

/-- A signature stays if its classes keep their names. -/
theorem Signature.renameTree_eq_self {s : Signature} (h : ∀ name ∈ s.names, f name = name) :
    s.renameTree f = s := by
  obtain ⟨parameters, parts⟩ := s
  rw [Signature.names, List.forall_mem_append] at h
  obtain ⟨hparameters, hparts⟩ := h
  have hparts' : parts.map (·.rename f) = parts := map_eq_self fun p hp =>
    SignaturePart.rename_eq_self fun name hname =>
      hparts name (List.mem_flatMap.2 ⟨p, hp, hname⟩)
  cases parameters with
  | none => rw [Signature.renameTree, hparts', Option.map_none]
  | some ps =>
    have hps : ps.map (·.rename f) = ps := map_eq_self fun p hp =>
      TypeParameter.rename_eq_self fun name hname =>
        hparameters name (List.mem_flatMap.2 ⟨p, hp, hname⟩)
    rw [Signature.renameTree, hparts', Option.map_some, hps]

end JarRefit.Naming
