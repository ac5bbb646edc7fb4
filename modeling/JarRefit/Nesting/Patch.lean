import JarRefit.Access.Directive
import JarRefit.Nesting.Sheet

/-!
# Patching a nesting sheet

A class directive for a nested class also changes the entries for that class, in the record of the
outermost class and in the record of the nested class itself.
-/
namespace JarRefit.Nesting

open Access (Change)

/-- A change that is asked for a nested class. -/
structure Request where
  outer : String
  target : String
  change : Change
deriving DecidableEq, Repr

/-- The request of a line: two words of which the second names a class inside another one. The
name of the outermost class ends at the first `$`, which does not stand at the front. -/
def Request.ofLine? (line : String) : Option Request :=
  match Access.Directive.lineWords line with
  | [access, target] =>
    match Text.cut? '$' target.toList with
    | some (c :: outer, _) => some ⟨String.ofList (c :: outer), target, .ofToken access⟩
    | _ => none
  | _ => none

/-- The entry after a change of the flags. -/
def Entry.change (e : Entry) (c : Change) : Entry :=
  e.withFlags (c.apply e.flags)

namespace ClassRecord

/-- The record with its entries for a class changed. -/
def patch (r : ClassRecord) (target : String) (c : Change) : ClassRecord :=
  { r with
    entries := r.entries.map (·.map fun e => if e.innerClass = target then e.change c else e) }

/-- How many entries a record has for a class. -/
def countFor (r : ClassRecord) (target : String) : Nat :=
  (r.entries.getD []).countP (·.innerClass = target)

end ClassRecord

namespace Sheet

/-- The sheet with the entries for a class changed in the record of one class. -/
def patchIn (s : Sheet) (owner target : String) (c : Change) : Sheet :=
  ⟨s.classes.map fun (name, r) => (name, if name = owner then r.patch target c else r)⟩

/-- How many entries the record of a class has for another class. -/
def countIn (s : Sheet) (owner target : String) : Nat :=
  ((s.record? owner).map (·.countFor target)).getD 0

/-- Follows a request. -/
def patchRequest (s : Sheet) (q : Request) : Sheet :=
  (s.patchIn q.outer q.target q.change).patchIn q.target q.target q.change

/-- How many entries a request changes. -/
def countRequest (s : Sheet) (q : Request) : Nat :=
  s.countIn q.outer q.target + s.countIn q.target q.target

/-- Follows the requests among the lines, in order. -/
def patch (s : Sheet) (lines : List String) : Sheet :=
  (lines.filterMap Request.ofLine?).foldl patchRequest s

/-- How many changes of an entry the requests among the lines make. -/
def patchCount (s : Sheet) (lines : List String) : Nat :=
  (lines.filterMap Request.ofLine?).foldl (fun count q => count + s.countRequest q) 0

end Sheet

end JarRefit.Nesting
