import JarRefit.Text.Split

/-!
# Archive entries

An archive is the list of its entries. Writing an entry to a container and reading it back keeps
its name, its data and its time, up to what `Entry.stored` says.
-/
namespace JarRefit.Archive

/-- The time of an entry, as a date and a time of day. -/
structure Timestamp where
  year : Nat
  month : Nat
  day : Nat
  hour : Nat
  minute : Nat
  second : Nat
deriving DecidableEq, Repr

/-- A file or a directory in an archive. -/
structure Entry where
  name : String
  isDirectory : Bool
  time : Timestamp
  data : List UInt8
deriving DecidableEq, Repr

/-- The back of the names of class files. -/
def classSuffix : String := ".class"

/-- The name that marks metadata, wherever it stands. -/
def metadataName : String := "META-INF"

namespace Entry

def file (name : String) (data : List UInt8) (time : Timestamp) : Entry :=
  { name, isDirectory := false, time, data }

/-- The internal class name that the name of a class file's entry spells. -/
def className? (e : Entry) : Option String :=
  if e.isDirectory then none
  else (Text.dropBack? classSuffix.toList e.name.toList).map String.ofList

def isClass (e : Entry) : Bool :=
  !e.isDirectory && classSuffix.toList.isSuffixOf e.name.toList

/-- Whether the name has the metadata name in it. -/
def isMetadata (e : Entry) : Bool :=
  Text.occursIn metadataName.toList e.name.toList

/-- Whether a name ends as the names of directories do. -/
def endsAsDirectory (name : String) : Bool :=
  name.toList.getLast? == some '/' || name.toList.getLast? == some '\\'

/-- The entry as a container gives it back: a directory's name ends in a slash, an entry whose name
ends as that of a directory is one and holds no data, and seconds are even. -/
def stored (e : Entry) : Entry :=
  let name := if e.isDirectory && !endsAsDirectory e.name then e.name ++ "/" else e.name
  let isDirectory := endsAsDirectory name
  { name, isDirectory
    time := { e.time with second := e.time.second / 2 * 2 }
    data := if isDirectory then [] else e.data }

end Entry

end JarRefit.Archive
