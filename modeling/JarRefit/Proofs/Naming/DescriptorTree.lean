import JarRefit.Naming.SymbolMapping
import JarRefit.Proofs.Naming.Descriptor
import JarRefit.Proofs.Naming.Grammar
import JarRefit.Proofs.Text.Split

/-!
# Descriptors as trees

The descriptors of fields and methods as the class file format defines them: trees over class names,
and the text of each. Renaming looks for an `L` and the next `;` and reads nothing else, and still
it does to the text of a tree what applying the new names does to the tree: outside of names no
letter of a descriptor is an `L`, and no name goes on behind a `;`.

## Main definitions

* `Descriptor.FieldType`, `Descriptor.Tree`: the trees, over names of any kind.
* `Descriptor.Tree.text`: the text of a tree.
* `Descriptor.ClassName`: the names that can stand in a class type.
-/
namespace JarRefit.Naming.Descriptor

open Grammar (BaseType)

/-- The type of a field, of a parameter or of a result. -/
inductive FieldType (ν : Type) where
  | base (t : BaseType)
  | cls (name : ν)
  | array (element : FieldType ν)

/-- The type of a field, or of a method, which gives no result if it is `void`. -/
inductive Tree (ν : Type) where
  | field (t : FieldType ν)
  | method (parameters : List (FieldType ν)) (result : Option (FieldType ν))

/-- A text that can stand in a class type. -/
structure ClassName where
  text : String
  closed : ';' ∉ text.toList

variable {ν ξ : Type}

/-! ## Renaming and printing trees -/

namespace FieldType

/-- The type with its class names replaced. -/
def map (f : ν → ξ) : FieldType ν → FieldType ξ
  | base t => base t
  | cls name => cls (f name)
  | array element => array (element.map f)

def chars : FieldType String → List Char
  | base t => [t.letter]
  | cls name => 'L' :: (name.toList ++ [';'])
  | array element => '[' :: element.chars

end FieldType

namespace Tree

/-- The descriptor with its class names replaced. -/
def map (f : ν → ξ) : Tree ν → Tree ξ
  | field t => field (t.map f)
  | method parameters result => method (parameters.map (·.map f)) (result.map (·.map f))

def chars : Tree String → List Char
  | field t => t.chars
  | method parameters result =>
    '(' :: (parameters.flatMap FieldType.chars ++ ')' :: result.elim ['V'] FieldType.chars)

def text (d : Tree String) : String :=
  String.ofList d.chars

end Tree

/-! ## Renaming text -/

variable {f : String → String} {c : Char} {cs : List Char}

theorem renameChars_nil : renameChars f [] = [] :=
  renameChars_of_no_class rfl

/-- A letter outside of names stays. -/
theorem renameChars_cons_of_ne (hc : c ≠ 'L') :
    renameChars f (c :: cs) = c :: renameChars f cs := by
  have hcut : Text.cut? 'L' (c :: cs) = _ := Text.cut?_cons_of_ne hc
  cases hcs : Text.cut? 'L' cs with
  | none =>
    rw [hcs] at hcut
    rw [renameChars_of_no_class hcut, renameChars_of_no_class hcs]
  | some sides =>
    obtain ⟨before, after⟩ := sides
    rw [hcs] at hcut
    cases hclosed : Text.cut? ';' after with
    | none => rw [renameChars_of_open_class hcut hclosed, renameChars_of_open_class hcs hclosed]
    | some sides =>
      rw [renameChars_of_class hcut hclosed, renameChars_of_class hcs hclosed]
      rfl

/-- A name between an `L` and the next `;` is replaced. -/
theorem renameChars_cls (name : ClassName) (rest : List Char) :
    renameChars f ('L' :: (name.text.toList ++ ';' :: rest)) =
      'L' :: ((f name.text).toList ++ ';' :: renameChars f rest) := by
  have hcut : Text.cut? 'L' ('L' :: (name.text.toList ++ ';' :: rest)) =
      some ([], name.text.toList ++ ';' :: rest) :=
    Text.cut?_append List.not_mem_nil
  rw [renameChars_of_class hcut (Text.cut?_append name.closed), String.ofList_toList,
    List.nil_append]

theorem letter_ne (t : BaseType) : t.letter ≠ 'L' := by
  cases t <;> decide

/-- The text of a type in front of more text is renamed as the type is. -/
theorem renameChars_chars_append (t : FieldType ClassName) (rest : List Char) :
    renameChars f ((t.map ClassName.text).chars ++ rest) =
      (t.map fun name => f name.text).chars ++ renameChars f rest := by
  induction t with
  | base t => exact renameChars_cons_of_ne (letter_ne t)
  | cls name => simpa [FieldType.map, FieldType.chars] using renameChars_cls name rest
  | array element ih =>
    simp [FieldType.map, FieldType.chars, renameChars_cons_of_ne, ih]

theorem renameChars_flatMap_append (ts : List (FieldType ClassName)) (rest : List Char) :
    renameChars f ((ts.map (·.map ClassName.text)).flatMap FieldType.chars ++ rest) =
      (ts.map (·.map fun name => f name.text)).flatMap FieldType.chars ++ renameChars f rest := by
  induction ts with
  | nil => rfl
  | cons t ts ih => simp [renameChars_chars_append, ih]

theorem renameChars_chars (d : Tree ClassName) :
    renameChars f (d.map ClassName.text).chars = (d.map fun name => f name.text).chars := by
  have hfield (t : FieldType ClassName) :
      renameChars f (t.map ClassName.text).chars = (t.map fun name => f name.text).chars := by
    simpa [renameChars_nil] using renameChars_chars_append t []
  cases d with
  | field t => exact hfield t
  | method parameters result =>
    simp only [Tree.map, Tree.chars]
    rw [renameChars_cons_of_ne (by decide), renameChars_flatMap_append,
      renameChars_cons_of_ne (by decide)]
    cases result with
    | none => simp [renameChars_cons_of_ne, renameChars_nil]
    | some t => simp [hfield]

/-- Renaming a descriptor replaces the class names in its tree, and nothing else. -/
theorem rename_text (d : Tree ClassName) :
    (∀ f, rename f (d.map ClassName.text).text = (d.map fun name => f name.text).text) ∧
      ∀ m : SymbolMapping, m.renameDescriptor (d.map ClassName.text).text =
        (d.map fun name => m.renameClass name.text).text := by
  have hrename (f : String → String) :
      rename f (d.map ClassName.text).text = (d.map fun name => f name.text).text := by
    rw [rename, Tree.text, String.toList_ofList, renameChars_chars]
    rfl
  exact ⟨hrename, fun m => hrename m.renameClass⟩

example : (Tree.method [.base .int, .array (.array (.cls "a/L"))] none).text = "(I[[La/L;)V" := by
  decide

end JarRefit.Naming.Descriptor
