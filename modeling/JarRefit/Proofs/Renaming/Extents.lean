import JarRefit.Proofs.Renaming.Body

/-!
# What renaming leaves the size of

Renaming replaces indices by indices: no list gets longer or shorter by it, and no payload.

## Main definitions

* `Attribute.extent`, `Member.extents`, `ClassFile.Extents`: the lengths that are written in front
  of lists and payloads.
-/
namespace JarRefit

open ClassFile

/-! ## Lengths -/

namespace ClassFile

/-- The length of the payload. -/
def Attribute.extent (a : Attribute) : Nat :=
  a.info.length

/-- The lengths of the payloads of a member. -/
def Member.extents (d : Member) : List Nat :=
  d.attributes.map Attribute.extent

/-- The lengths of the lists of a class file behind its pool, and of the payloads in them. -/
structure Extents where
  interfaces : Nat
  fields : List (List Nat)
  methods : List (List Nat)
  attributes : List Nat

def extents (c : ClassFile) : Extents where
  interfaces := c.interfaces.length
  fields := c.fields.map Member.extents
  methods := c.methods.map Member.extents
  attributes := c.attributes.map Attribute.extent

end ClassFile

namespace Renaming.Sheet

variable {s : Sheet} {new : ConstantPool}

theorem DeclarationRenamed.extents {newName? : String → String → Access.Flags → Option String}
    {d d' : Member} (h : DeclarationRenamed s newName? new d d') : d'.extents = d.extents :=
  map_eq_map_of_forall₂ h.attributes fun _ _ => SignatureRenamed.length

/-- Renaming the declarations of a class keeps the lengths of its lists and payloads. -/
theorem BodyRenamed.extents {c c' : ClassFile} (h : BodyRenamed s new c c') :
    c'.extents = c.extents := by
  have hmembers (kind : MemberKind) :
      (c'.members kind).map Member.extents = (c.members kind).map Member.extents :=
    map_eq_map_of_forall₂ (h.members kind) fun _ _ => DeclarationRenamed.extents
  have hfields : c'.fields.map Member.extents = c.fields.map Member.extents := hmembers .field
  have hmethods : c'.methods.map Member.extents = c.methods.map Member.extents := hmembers .method
  have hattributes : c'.attributes.map Attribute.extent = c.attributes.map Attribute.extent :=
    map_eq_map_of_forall₂ h.attributes fun _ _ => AttributeRenamed.length
  have hinterfaces : c'.interfaces = c.interfaces := by rw [h.frame]
  rw [ClassFile.extents, ClassFile.extents, hfields, hmethods, hattributes, hinterfaces]

end Renaming.Sheet

end JarRefit
