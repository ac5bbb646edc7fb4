import JarRefit.Notice
import JarRefit.Text.Split

/-!
# SRG lines

The text form of a symbol mapping, one entry a line:

    PK: ./ net/minecraft/src
    CL: a net/minecraft/world/World
    FD: a/b net/minecraft/world/World/field_72996_f
    MD: a/c (I)La; net/minecraft/world/World/func_72964_e (I)Lnet/minecraft/world/World;

A blank line means nothing; any other line that is not one of these is malformed.
-/
namespace JarRefit.Naming

/-- What one line maps. Of a new member only the name counts. -/
inductive SrgEntry where
  | package (old new : String)
  | cls (old new : String)
  | field (owner name new : String)
  | method (owner name descriptor new : String)
deriving DecidableEq, Repr

namespace Srg

/-- The owner and the name of a member path, which are parted by its last `/`; neither is empty. -/
def splitMember? (path : String) : Option (String × String) :=
  match Text.cutLast? '/' path.toList with
  | some (owner, name) =>
    if owner.isEmpty || name.isEmpty then none else some (String.ofList owner, String.ofList name)
  | none => none

/-- The entry that the words of a line make up. -/
def ofWords? : List String → Option SrgEntry
  | ["PK:", old, new] => some (.package old new)
  | ["CL:", old, new] => some (.cls old new)
  | ["FD:", old, new] => do
    let (owner, name) ← splitMember? old
    let (_, new) ← splitMember? new
    some (.field owner name new)
  | ["MD:", old, descriptor, new, _] => do
    let (owner, name) ← splitMember? old
    let (_, new) ← splitMember? new
    some (.method owner name descriptor new)
  | _ => none

/-- The words of a line. -/
def lineWords (line : String) : List String :=
  (Text.words line.toList).map String.ofList

/-- The lines of a text. -/
def lines (text : String) : List String :=
  (Text.lines text.toList).map String.ofList

/-- The entries of a text, in order. -/
def entries (text : String) : List SrgEntry :=
  (lines text).filterMap fun line => ofWords? (lineWords line)

/-- Whether a line has words and these make up no entry. -/
def isMalformed (line : String) : Bool :=
  !(lineWords line).isEmpty && (ofWords? (lineWords line)).isNone

/-- One report for each malformed line, with the number of the line, counted from 1. -/
def notices (text : String) : List Notice :=
  ((lines text).zipIdx 1).filterMap fun (line, number) =>
    if isMalformed line then
      some (.mappingLineMalformed number (String.ofList (Text.trim line.toList)))
    else none

end Srg

end JarRefit.Naming
