import JarRefit.Toml.Value

/-!
# Building tables

A table is defined piece by piece: by its header, by headers of tables inside it, and by keys with
several parts. `Node` remembers how each part came to be, because that decides what may still be
added to it: nothing is defined twice.
-/
namespace JarRefit.Toml

/-- How a table came to be. -/
inductive Origin where
  /-- Headers of tables inside it name it. -/
  | mentioned
  /-- A key with several parts names it. -/
  | dotted
  /-- It has a header. -/
  | defined
deriving DecidableEq, Repr

/-- A part of a document that is being built. -/
inductive Node where
  | value (v : Value)
  | table (origin : Origin) (entries : List (String × Node))
  /-- The tables of an array, each with its own header. -/
  | tables (items : List (List (String × Node)))

/-- The entries of a table that is being built, in order. -/
abbrev Nodes := List (String × Node)

/-- One key and its value: the parts of the key before the last one, and the last one. -/
structure Assignment where
  path : List String
  key : String
  value : Value

namespace Node

mutual

/-- The value that has been built. -/
def toValue : Node → Value
  | value v => v
  | table _ entries => .table (toEntries entries)
  | tables items => .array (toTables items)

/-- The entries that have been built. -/
def toEntries : List (String × Node) → Entries
  | [] => []
  | (key, node) :: rest => (key, node.toValue) :: toEntries rest

/-- The tables of an array that have been built. -/
def toTables : List (List (String × Node)) → List Value
  | [] => []
  | entries :: rest => .table (toEntries entries) :: toTables rest

end

end Node

namespace Nodes

/-- Replaces the node of a key that is there, or adds one at the end. -/
def update (key : String) (f : Option Node → Option Node) : Nodes → Option Nodes
  | [] => do some [(key, ← f none)]
  | (k, node) :: rest =>
    if k = key then do some ((k, ← f (some node)) :: rest)
    else (update key f rest).map ((k, node) :: ·)

/-- Changes the last of several tables. -/
def updateLast (f : Nodes → Option Nodes) : List Nodes → Option (List Nodes)
  | [] => none
  | [last] => (f last).map ([·])
  | first :: rest => (updateLast f rest).map (first :: ·)

/-- Puts a value under a key that is not there yet. -/
def put (key : String) (v : Value) (nodes : Nodes) : Option Nodes :=
  update key (fun
    | none => some (.value v)
    | some _ => none) nodes

/-- Puts a value under a key inside the tables that a path names. The path makes tables that are not
there, enters none that has a header, and ends in one that was made by such a path. -/
def assign (key : String) (v : Value) : List String → Nodes → Option Nodes
  | [], nodes => put key v nodes
  | step :: path, nodes => update step (fun
    | none => (assign key v path []).map (.table .dotted)
    | some (.table origin entries) =>
      if origin = .defined ∨ (path.isEmpty ∧ origin ≠ .dotted) then none
      else (assign key v path entries).map (.table origin)
    | some (.tables items) =>
      if path.isEmpty then none else (updateLast (assign key v path) items).map .tables
    | some (.value _) => none) nodes

/-- Puts several values under their keys. -/
def assignAll (nodes : Nodes) (assignments : List Assignment) : Option Nodes :=
  assignments.foldlM (fun nodes a => assign a.key a.value a.path nodes) nodes

/-- Changes the table that the path of a header names. The path makes tables that are not there and
enters the last one of an array. -/
def descend (f : Nodes → Option Nodes) : List String → Nodes → Option Nodes
  | [], nodes => f nodes
  | step :: path, nodes => update step (fun
    | none => (descend f path []).map (.table .mentioned)
    | some (.table origin entries) => (descend f path entries).map (.table origin)
    | some (.tables items) => (updateLast (descend f path) items).map .tables
    | some (.value _) => none) nodes

/-- Defines a table by its header. One that was only mentioned so far keeps what it holds and moves
to the end. -/
def defineTable (key : String) (assignments : List Assignment) (nodes : Nodes) : Option Nodes := do
  let held ← match nodes.lookup key with
    | none => some []
    | some (.table .mentioned held) => some held
    | some _ => none
  let entries ← assignAll held assignments
  some (nodes.filter (·.1 ≠ key) ++ [(key, .table .defined entries)])

/-- Adds a table to an array of tables by its header. -/
def addTable (key : String) (assignments : List Assignment) (nodes : Nodes) : Option Nodes := do
  let entries ← assignAll [] assignments
  update key (fun
    | none => some (.tables [entries])
    | some (.tables items) => some (.tables (items ++ [entries]))
    | some _ => none) nodes

end Nodes

/-- What stands at the head of a section of a document. -/
inductive Header where
  | root
  | table (path : List String) (key : String)
  | arrayItem (path : List String) (key : String)

/-- A header and the assignments under it. -/
structure Section where
  header : Header
  assignments : List Assignment

/-- Adds a section. -/
def Section.addTo (s : Section) (nodes : Nodes) : Option Nodes :=
  match s.header with
  | .root => nodes.assignAll s.assignments
  | .table path key => nodes.descend (Nodes.defineTable key s.assignments) path
  | .arrayItem path key => nodes.descend (Nodes.addTable key s.assignments) path

/-- The entries of the document that sections make up. -/
def Entries.ofSections? (sections : List Section) : Option Entries :=
  (sections.foldlM (fun nodes s => Section.addTo s nodes) []).map Node.toEntries

/-- The entries of a table on one line. -/
def Entries.ofAssignments? (assignments : List Assignment) : Option Entries :=
  (Nodes.assignAll [] assignments).map Node.toEntries

end JarRefit.Toml
