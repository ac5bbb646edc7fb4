import JarRefit.Access.RenameTable

/-!
# Access tables

The merged access changes of a set of directives, by symbol key. A symbol's change is the one
under its own key merged with the one under its owner's wildcard: `*` stands for every field and
`*()` for every method of a class.
-/
namespace JarRefit.Access

/-- Access changes by symbol key: `owner`, `owner.name` or `owner.name(descriptor)`. -/
structure Table where
  changes : Std.HashMap String Change := ∅

/-- Whether loading reports each change. -/
inductive Verbosity where
  | verbose
  | quiet
deriving DecidableEq, Repr

namespace Table

def empty : Table := {}

def size (table : Table) : Nat :=
  table.changes.size

/-- Records a change, merged with an earlier one for the same key. -/
def add (table : Table) (key : String) (change : Change) : Table :=
  ⟨table.changes.insert key
    (match table.changes[key]? with
      | some earlier => earlier.merge change
      | none => change)⟩

def addDirective (table : Table) (d : Directive) : Table :=
  table.add d.key d.change

/-- Loads directives in order. -/
def addAll (table : Table) (ds : List Directive) : Table :=
  ds.foldl addDirective table

/-- The directives of a text, redirected through a rename table. -/
def directives (renames : RenameTable) (text : String) : List Directive :=
  ((Text.lines text.toList).filterMap fun line =>
    (Directive.parse? (String.ofList line)).map fun (_, d) => renames.redirect d)

/-- Loads every directive of a text. -/
def load (table : Table) (renames : RenameTable) (text : String) : Table :=
  table.addAll (directives renames text)

def classChange (table : Table) (owner : String) : Option Change :=
  table.changes[owner]?

/-- The change of the first key merged with the changes of the others, as far as they exist. -/
def mergedChange (table : Table) (keys : List String) : Option Change :=
  match keys.filterMap (table.changes[·]?) with
  | [] => none
  | c :: cs => some (cs.foldl Change.merge c)

def fieldChange (table : Table) (owner name : String) : Option Change :=
  table.mergedChange [owner ++ "." ++ name, owner ++ "." ++ "*"]

def methodChange (table : Table) (owner name descriptor : String) : Option Change :=
  table.mergedChange [owner ++ "." ++ (name ++ descriptor), owner ++ "." ++ "*()"]

def applyClass (table : Table) (owner : String) (flags : Flags) : Flags :=
  (table.classChange owner).elim flags (·.apply flags)

def applyField (table : Table) (owner name : String) (flags : Flags) : Flags :=
  (table.fieldChange owner name).elim flags (·.apply flags)

def applyMethod (table : Table) (owner name descriptor : String) (flags : Flags) : Flags :=
  (table.methodChange owner name descriptor).elim flags (·.apply flags)

/-! ### Reports -/

/-- What recording a change reports. -/
def addNotices (table : Table) (key : String) (change : Change) : Verbosity → List Notice
  | .quiet => []
  | .verbose =>
    match table.changes[key]? with
    | some earlier => [.accessChangeMerged key earlier.token (earlier.merge change).token]
    | none => [.accessChange key change.token]

/-- What loading directives reports. -/
def addAllNotices (table : Table) (v : Verbosity) : List Directive → List Notice
  | [] => []
  | d :: ds =>
    table.addNotices d.key d.change v ++ (table.addDirective d).addAllNotices v ds

/-- What loading lines reports: about each line, and then about its change. -/
def lineNotices (table : Table) (renames : RenameTable) (v : Verbosity) :
    List (List Char) → List Notice
  | [] => []
  | line :: rest =>
    let line := String.ofList line
    Directive.notices line ++
      match Directive.parse? line with
      | none => table.lineNotices renames v rest
      | some (_, d) =>
        let d := renames.redirect d
        table.addNotices d.key d.change v ++ (table.addDirective d).lineNotices renames v rest

/-- What loading a text reports. -/
def loadNotices (table : Table) (renames : RenameTable) (text : String) (v : Verbosity) :
    List Notice :=
  table.lineNotices renames v (Text.lines text.toList)

/-- What loading a file reports at its end. -/
def fileNotices (path : String) (v : Verbosity) (directives : Nat) : List Notice :=
  match v with
  | .quiet => []
  | .verbose => [.transformerLoaded path directives]

end Table

end JarRefit.Access
