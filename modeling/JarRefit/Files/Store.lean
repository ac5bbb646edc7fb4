import Std.Data.HashMap
import JarRefit.Archive.Entry
import JarRefit.Files.Path
import JarRefit.Text.Utf8

/-!
# File stores

The files and directories that a run reads and writes, as a value. Every path is seen from a
working directory, which is the only place where the store holds anything. A file holds bytes or
the entries of an archive.
-/
namespace JarRefit.Files

/-- Why a file operation fails. -/
inductive IoFault where
  | noEntry
  | alreadyExists
  | notDirectory
  | isDirectory
  | invalidText
  | notRegularFile
  | nameTooLong
  /-- A path holds the character NUL. -/
  | nulInName
  /-- The name or an argument of a program holds the character NUL. -/
  | nulInArgument
  | argumentTooLong
  | noPermission
deriving DecidableEq, Repr

def IoFault.message : IoFault → String
  | noEntry => "No such file or directory (os error 2)"
  | alreadyExists => "File exists (os error 17)"
  | notDirectory => "Not a directory (os error 20)"
  | isDirectory => "Is a directory (os error 21)"
  | invalidText => "stream did not contain valid UTF-8"
  | notRegularFile => "the source path is neither a regular file nor a symlink to a regular file"
  | nameTooLong => "File name too long (os error 36)"
  | nulInName => "file name contained an unexpected NUL byte"
  | nulInArgument => "nul byte found in provided data"
  | argumentTooLong => "Argument list too long (os error 7)"
  | noPermission => "Permission denied (os error 13)"

/-- What a file holds. -/
inductive Content where
  | bytes (data : List UInt8)
  | archive (entries : List Archive.Entry)
deriving DecidableEq, Repr

/-- What stands at a place of the store. -/
inductive Node where
  | directory
  | file (content : Content)
deriving DecidableEq, Repr

/-- A place of the store: the segments from the working directory down. -/
abbrev Place := List String

/-- Files and directories by place. The working directory is always there. -/
structure Store where
  /-- The absolute path of the working directory. -/
  root : Path
  nodes : Std.HashMap Place Node := ∅

namespace Store

/-- What stands at a place. -/
def node? (s : Store) (place : Place) : Option Node :=
  if place = [] then some .directory else s.nodes[place]?

def put (s : Store) (place : Place) (node : Node) : Store :=
  { s with nodes := s.nodes.insert place node }

/-! ### Resolution -/

/-- Whether a segment is longer than any name may be. -/
def isTooLong (segment : String) : Bool :=
  255 < segment.utf8ByteSize

/-- Refuses a path that can name nothing. -/
def checkText (path : Path) : Except IoFault Unit := do
  if path.contains (Char.ofNat 0) then throw .nulInName
  if path.isEmpty then throw .noEntry

/-- Refuses a path by itself, whatever stands in the store. -/
def checkPath (path : Path) : Except IoFault Unit := do
  checkText path
  if 4095 < path.utf8ByteSize then throw .nameTooLong

/-- The place reached from a directory along segments that all exist. -/
def walk (s : Store) (place : Place) : List String → Except IoFault Place
  | [] => .ok place
  | segment :: rest =>
    match s.node? place with
    | none => .error .noEntry
    | some (.file _) => .error .notDirectory
    | some .directory =>
      if segment = ".." then
        if place = [] then .error .noEntry else s.walk place.dropLast rest
      else if isTooLong segment then .error .nameTooLong
      else if (s.node? (place ++ [segment])).isSome then s.walk (place ++ [segment]) rest
      else .error .noEntry

/-- The segments of a path from the working directory down, if it lies there. -/
def relativeSegments? (s : Store) (path : Path) : Option (List String) :=
  if path.isAbsolute then
    let base := Path.segments s.root
    if base.isPrefixOf path.segments then some (path.segments.drop base.length) else none
  else some path.segments

/-- The place that the segments of a path lead to. -/
def locate (s : Store) (path : Path) : Except IoFault Place := do
  let some segments := s.relativeSegments? path | throw .noEntry
  let place ← s.walk [] segments
  match s.node? place with
  | some (.file _) => if path.namesDirectory then throw .notDirectory else return place
  | _ => return place

/-- The place of a path that exists. -/
def resolve (s : Store) (path : Path) : Except IoFault Place := do
  checkPath path
  s.locate path

/-- The place of a new entry: its directory exists. Nothing for a path that names an existing
directory by itself, such as one that ends in `.` or `..`. -/
def resolveNew (s : Store) (path : Path) : Except IoFault (Option Place) := do
  checkPath path
  let some segments := s.relativeSegments? path | throw .noEntry
  let above := if path.pieces.getLast? = some "." then segments else segments.dropLast
  let directory ← s.walk [] above
  match s.node? directory, segments.getLast? with
  | some .directory, some last =>
    return if above = segments || last = ".." then none else some (directory ++ [last])
  | some .directory, none => return none
  | _, _ => throw .notDirectory

/-- The absolute path of what stands at a path, which is followed segment by segment and so may be
of any length. -/
def canonicalize (s : Store) (path : Path) : Except IoFault Path := do
  checkText path
  return "/".intercalate (s.root :: (← s.locate path))

/-! ### Reading -/

/-- The content of the file at a path. -/
def content (s : Store) (path : Path) : Except IoFault Content := do
  match s.node? (← s.resolve path) with
  | some (.file content) => return content
  | _ => throw .isDirectory

/-- The text that a content is. Of archives only the empty one is text. -/
def textOf? : Content → Option String
  | .bytes data => Utf8.decode? data
  | .archive [] => some (String.ofList ("PK\x05\x06".toList ++ List.replicate 18 (Char.ofNat 0)))
  | .archive _ => none

def readText (s : Store) (path : Path) : Except IoFault String := do
  match textOf? (← s.content path) with
  | some text => return text
  | none => throw .invalidText

/-- The places of all files, as paths from the working directory, in the order of their text. -/
def filePaths (s : Store) : List Path :=
  (s.nodes.toList.filterMap fun (place, node) =>
    match node with
    | .file _ => some ("/".intercalate place)
    | .directory => none).mergeSort (fun a b => decide (a ≤ b))

/-! ### Writing -/

/-- The store with a file at a path, which is made or replaced, and its place. A path with a slash
at its end names no file. -/
def create (s : Store) (path : Path) (content : Content) : Except IoFault (Place × Store) := do
  let some place ← s.resolveNew path | throw .isDirectory
  if path.namesDirectory then throw .isDirectory
  if place.getLast?.any isTooLong then throw .nameTooLong
  if s.node? place = some .directory then throw .isDirectory
  return (place, s.put place (.file content))

def write (s : Store) (path : Path) (content : Content) : Except IoFault Store := do
  return (← s.create path content).2

/-- The store without the file at a path. -/
def remove (s : Store) (path : Path) : Except IoFault Store := do
  let place ← s.resolve path
  if s.node? place = some .directory then throw .isDirectory
  return { s with nodes := s.nodes.erase place }

/-- The store with a directory at a path where nothing stood. -/
def makeDirectory (s : Store) (path : Path) : Except IoFault Store := do
  let some place ← s.resolveNew path | throw .alreadyExists
  if place.getLast?.any isTooLong then throw .nameTooLong
  if (s.node? place).isSome then throw .alreadyExists
  return s.put place .directory

def isDirectory (s : Store) (path : Path) : Bool :=
  match s.resolve path with
  | .ok place => s.node? place == some .directory
  | .error _ => false

/-- The store with a directory at a path or above it made, or left if it is there. -/
def ensureDirectory (s : Store) (path : Path) : Except IoFault Store :=
  match s.makeDirectory path with
  | .ok s => .ok s
  | .error e => if s.isDirectory path then .ok s else .error e

/-- Makes a directory at a path along with the directories above it that are missing. What has been
made stays when a fault follows. The first argument bounds how far up to go. -/
def makeDirectoriesUpTo : Nat → Path → EStateM IoFault Store Unit
  | 0, _ => throw .noEntry
  | bound + 1, path => fun s =>
    if path.isEmpty then .ok () s
    else
      match s.makeDirectory path, path.parent? with
      | .ok s, _ => .ok () s
      | .error .noEntry, some parent =>
        match makeDirectoriesUpTo bound parent s with
        | .error e s => .error e s
        | .ok _ s =>
          match s.ensureDirectory path with
          | .ok s => .ok () s
          | .error e => .error e s
      | .error e, _ => if s.isDirectory path then .ok () s else .error e s

def makeDirectories (path : Path) : EStateM IoFault Store Unit :=
  makeDirectoriesUpTo (path.pieces.length + 1) path

/-- The store with the content of one file at another path. The target is emptied before the source
is read, so a file copied onto itself is lost. -/
def copy (s : Store) (source target : Path) : Except IoFault Store := do
  let place ← s.resolve source
  let some (.file content) := s.node? place | throw .notRegularFile
  let (made, s) ← s.create target (.bytes [])
  return if made = place then s else s.put made (.file content)

/-- The store with a file at a place, and directories above it. -/
def plant (s : Store) (place : Place) (node : Node) : Store :=
  let directories := (List.range place.length).map (place.take ·)
  (directories.foldl (fun s d => if d = [] then s else s.put d .directory) s).put place node

end Store

end JarRefit.Files
