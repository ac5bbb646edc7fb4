import JarRefit.Text.Split

/-!
# Descriptors

The type of a field or of a method, such as `(La;I)[Lb;`. A class type is written `L`, the internal
name of the class and `;`. `Descriptor.rename` gives the classes of a descriptor new names without
reading the rest of it, and so takes any text.
-/
namespace JarRefit.Naming.Descriptor

/-- The text with `f` applied to each name between an `L` and the next `;`. -/
def renameChars (f : String → String) (cs : List Char) : List Char :=
  match _h₁ : Text.cut? 'L' cs with
  | none => cs
  | some (before, after) =>
    match _h₂ : Text.cut? ';' after with
    | none => cs
    | some (name, rest) =>
      before ++ 'L' :: ((f (String.ofList name)).toList ++ ';' :: renameChars f rest)
termination_by cs.length
decreasing_by
  have h₁ := congrArg List.length (Text.cut?_eq_some _h₁).1
  have h₂ := congrArg List.length (Text.cut?_eq_some _h₂).1
  simp at h₁ h₂
  omega

/-- The descriptor with its classes renamed. -/
def rename (f : String → String) (descriptor : String) : String :=
  String.ofList (renameChars f descriptor.toList)

end JarRefit.Naming.Descriptor
