import JarRefit.Renaming.Interner

/-!
# Work at a desk

A desk holds the item being rewritten beside the interner that gives it new constants. Work on an
item carries over to a part of a larger item and to every item of a list, and what was done before
a fault stays.
-/
namespace JarRefit.Renaming

open ClassFile

/-- An item with the interner that new constants come from. -/
structure Desk (α : Type) where
  interner : Interner
  item : α

/-- Work on an item that keeps what was done before a fault. -/
abbrev Work (α : Type) := EStateM Fault (Desk α)

namespace Work

variable {α β γ : Type}

/-- The item as it is now. -/
def item : Work α α := do
  return (← EStateM.get).item

/-- Changes the item. -/
def change (f : α → α) : Work α Unit :=
  modify fun desk => { desk with item := f desk.item }

/-- The slot of a text. -/
def text (s : String) : Work α UInt16 := fun desk =>
  match Interner.text s desk.interner with
  | .ok index interner => .ok index { desk with interner }
  | .error e interner => .error e { desk with interner }

/-- Does the work on a part of the item. -/
def on (part : β → α) (replace : α → β → β) (work : Work α γ) : Work β γ := fun desk =>
  match work ⟨desk.interner, part desk.item⟩ with
  | .ok c d => .ok c ⟨d.interner, replace d.item desk.item⟩
  | .error e d => .error e ⟨d.interner, replace d.item desk.item⟩

/-- Does the work on each item of a list, one after another. -/
def each (work : Work α Unit) : Work (List α) Unit := fun desk =>
  go desk.interner [] desk.item
where
  go (interner : Interner) (done : List α) : List α → EStateM.Result Fault (Desk (List α)) Unit
    | [] => .ok () ⟨interner, done.reverse⟩
    | x :: rest =>
      match work ⟨interner, x⟩ with
      | .ok () d => go d.interner (d.item :: done) rest
      | .error e d => .error e ⟨d.interner, done.reverse ++ d.item :: rest⟩

end Work

end JarRefit.Renaming
