import JarRefit.Archive.Entry
import JarRefit.ClassFile.Basic
import JarRefit.Naming.Hierarchy
import JarRefit.Notice

/-!
# The hierarchy in an archive

The parents that the class files of an archive declare: the superclass, then the interfaces. A
class file that does not tell them is reported and left out; of two that declare the same class
the later one counts.
-/
namespace JarRefit.Archive

open ClassFile Naming

/-- The name of a class and its direct parents. -/
def declaredParents (c : ClassFile) : Except Fault (String × List String) := do
  let superName ← c.superName
  let interfaces ← c.interfaceNames
  return (← c.name, superName.toList ++ interfaces)

/-- What an entry declares: nothing, if it is no class file. -/
def entryParents (e : Entry) : Except Fault (Option (String × List String)) :=
  if e.isClass then some <$> (ClassFile.decode e.data >>= declaredParents) else .ok none

/-- The parents that the entries declare. -/
def parentTable (entries : List Entry) : ParentTable :=
  entries.foldl
    (fun table e =>
      match entryParents e with
      | .ok (some (name, parents)) => table.insert name parents
      | _ => table)
    ∅

/-- One report for each class file that does not tell its parents. -/
def hierarchyNotices (entries : List Entry) : List Notice :=
  entries.filterMap fun e =>
    match entryParents e with
    | .ok _ => none
    | .error fault => some (.classWithoutHierarchy (e.className?.getD "") fault.message)

end JarRefit.Archive
