import Std.Data.HashMap
import JarRefit.Access.Directive

/-!
# Rename tables

Renames of members without regard to their owner, read from comma-separated tables whose first
two columns are the old and the new name. The first entry for a name counts. `redirect` applies a
table to the member of a directive.
-/
namespace JarRefit.Access

/-- The new names of members, by old name. -/
structure RenameTable where
  entries : Std.HashMap String String := ∅

namespace RenameTable

def empty : RenameTable := {}

/-- The first column of the header row. -/
def headerWord : String := "searge"

/-- The old and the new name that a row holds. A row needs two columns, both of them not empty,
and is not the header. -/
def row? (line : String) : Option (String × String) :=
  match Text.splitWhere (· == ',') line.toList with
  | old :: new :: _ =>
    let old := String.ofList (Text.trim old)
    let new := String.ofList (Text.trim new)
    if old = headerWord || old.isEmpty || new.isEmpty then none else some (old, new)
  | _ => none

/-- The rows of a text, in order. -/
def rows (text : String) : List (String × String) :=
  ((Text.lines text.toList).map String.ofList).filterMap row?

def add (table : RenameTable) (row : String × String) : RenameTable :=
  ⟨table.entries.insertIfNew row.1 row.2⟩

/-- The table with the rows of a text added. -/
def load (table : RenameTable) (text : String) : RenameTable :=
  (rows text).foldl add table

def lookup (table : RenameTable) (old : String) : Option String :=
  table.entries[old]?

def size (table : RenameTable) : Nat :=
  table.entries.size

/-- How many names a text adds to a table. -/
def added (table : RenameTable) (text : String) : Nat :=
  (table.load text).size - table.size

/-- The directive with its member renamed; class directives and unknown members stay. -/
def redirect (table : RenameTable) (d : Directive) : Directive :=
  { d with member := d.member.map fun m => { m with name := (table.lookup m.name).getD m.name } }

end RenameTable

end JarRefit.Access
