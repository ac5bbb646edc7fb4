import Mathlib.Data.Set.Card
import JarRefit.Access.RenameTable
import JarRefit.Proofs.Tables

/-!
# What a rename table remembers

A rename table that texts were loaded into gives a name the new one that the first line for it
gives, and keeps it for good when more texts follow. A load counts the names that its text adds.

## Main definitions

* `RenameTable.Gives`, `RenameTable.FirstGives`: the lines that give a name a new one.
* `RenameTable.loadAll`: the table of texts that are loaded one after another.
* `RenameTable.addedCounts`: what the loads count.
-/
namespace JarRefit.Access.RenameTable

variable {table : RenameTable} {line old new : String}

/-! ## Lines -/

/-- The lines of a text. -/
def lines (text : String) : List String :=
  (Text.lines text.toList).map String.ofList

/-- Whether a line gives a name a new one. They are the first two of its fields, without the blanks
around them; neither of them is empty, and the old one is not the word of the header. -/
def Gives (line old new : String) : Prop :=
  ∃ first second rest, Text.splitWhere (· == ',') line.toList = first :: second :: rest ∧
    old = String.ofList (Text.trim first) ∧ new = String.ofList (Text.trim second) ∧
    old ≠ "searge" ∧ old ≠ "" ∧ new ≠ ""

/-- The names that some lines give a new one. -/
def given (ls : List String) : Set String :=
  {old | ∃ line ∈ ls, ∃ new, Gives line old new}

/-- The new name that a line gives. -/
def newName? (old line : String) : Option String :=
  (row? line).bind fun row => if row.1 = old then some row.2 else none

/-- The table of texts that are loaded one after another. -/
def loadAll (texts : List String) : RenameTable :=
  texts.foldl load empty

/-- The table with what a line gives. -/
def addLine (table : RenameTable) (line : String) : RenameTable :=
  (row? line).elim table table.add

/-- A line is taken only for a name that has no new one yet. -/
theorem lookup_addLine (table : RenameTable) (line old : String) :
    (table.addLine line).lookup old = (table.lookup old).or (newName? old line) := by
  unfold addLine newName?
  cases row? line with
  | none => exact Option.or_none.symm
  | some row => exact getElem?_insertIfNew table.entries row.1 row.2 old

/-- Of a name that a table does not know, it learns what the first line for it gives. -/
theorem lookup_foldl_addLine (table : RenameTable) (ls : List String) (old : String) :
    (ls.foldl addLine table).lookup old =
      (table.lookup old).or (ls.findSome? (newName? old)) :=
  foldl_eq_or (lookup · old) (fun table line => lookup_addLine table line old) table ls

theorem load_eq_foldl (table : RenameTable) (text : String) :
    table.load text = (lines text).foldl addLine table := by
  rw [load, rows, List.foldl_filterMap, lines]
  congr
  funext table line
  unfold addLine
  cases row? line <;> rfl

theorem lookup_loadAll (texts : List String) (old : String) :
    (loadAll texts).lookup old = (texts.flatMap lines).findSome? (newName? old) := by
  have hlines : loadAll texts = (texts.flatMap lines).foldl addLine empty := by
    rw [loadAll, List.foldl_flatMap]
    congr
    funext table text
    exact load_eq_foldl table text
  rw [hlines, lookup_foldl_addLine]
  simp [lookup, empty]

/-- The names that a table knows. -/
def known (table : RenameTable) : Set String :=
  {old | table.lookup old ≠ none}

end JarRefit.Access.RenameTable
