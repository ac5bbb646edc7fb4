import JarRefit.Naming.Descriptor

/-!
# Names in descriptors

Renaming a descriptor asks for the new names of the classes in it, and for nothing else.

## Main definitions

* `Descriptor.names`: the class names in a descriptor.
-/
namespace JarRefit.Naming.Descriptor

variable {f : String → String}

/-- The names between an `L` and the next `;`. -/
def names (cs : List Char) : List String :=
  match _h₁ : Text.cut? 'L' cs with
  | none => []
  | some (_, after) =>
    match _h₂ : Text.cut? ';' after with
    | none => []
    | some (name, rest) => String.ofList name :: names rest
termination_by cs.length
decreasing_by
  have h₁ := congrArg List.length (Text.cut?_eq_some _h₁).1
  have h₂ := congrArg List.length (Text.cut?_eq_some _h₂).1
  simp at h₁ h₂
  omega

/-! ## One class at a time -/

variable {cs before after name rest : List Char}

theorem renameChars_of_no_class (h : Text.cut? 'L' cs = none) : renameChars f cs = cs := by
  rw [renameChars]
  split
  · rfl
  · simp_all

theorem renameChars_of_open_class (h : Text.cut? 'L' cs = some (before, after))
    (hopen : Text.cut? ';' after = none) : renameChars f cs = cs := by
  rw [renameChars]
  split
  · rfl
  · next before' after' hcut =>
    cases h.symm.trans hcut
    split
    · rfl
    · simp_all

theorem renameChars_of_class (h : Text.cut? 'L' cs = some (before, after))
    (hclosed : Text.cut? ';' after = some (name, rest)) :
    renameChars f cs =
      before ++ 'L' :: ((f (String.ofList name)).toList ++ ';' :: renameChars f rest) := by
  rw [renameChars]
  split
  · simp_all
  · next before' after' hcut =>
    cases h.symm.trans hcut
    split
    · simp_all
    · next name' rest' hcut =>
      cases hclosed.symm.trans hcut
      rfl

/-! ## Descriptors that stay -/

/-- A descriptor stays if its classes keep their names. -/
theorem renameChars_eq_self (h : ∀ name ∈ names cs, f name = name) : renameChars f cs = cs := by
  fun_induction names cs with
  | case1 cs hcut => exact renameChars_of_no_class hcut
  | case2 cs before after hcut hopen => exact renameChars_of_open_class hcut hopen
  | case3 cs before after hcut name rest hclosed ih =>
    rw [List.forall_mem_cons] at h
    have hcs := (Text.cut?_eq_some hcut).1
    have hafter := (Text.cut?_eq_some hclosed).1
    rw [renameChars_of_class hcut hclosed, h.1, ih h.2, String.toList_ofList, ← hafter, ← hcs]

theorem rename_eq_self {descriptor : String}
    (h : ∀ name ∈ names descriptor.toList, f name = name) : rename f descriptor = descriptor := by
  rw [rename, renameChars_eq_self h, String.ofList_toList]

end JarRefit.Naming.Descriptor
