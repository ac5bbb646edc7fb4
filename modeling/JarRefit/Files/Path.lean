import JarRefit.Text.Split

/-!
# Paths

Paths as text, with `/` between their segments. A path is absolute if it starts with `/`; empty
segments and segments `.` mean nothing, except a `.` at the front of a relative path, which its
parent keeps.
-/
namespace JarRefit.Files

/-- A path as it is written. -/
abbrev Path := String

namespace Path

def isAbsolute (path : Path) : Bool :=
  path.toList.head? == some '/'

/-- The text between the slashes. -/
def pieces (path : Path) : List String :=
  (Text.splitWhere (· == '/') path.toList).map String.ofList

/-- The segments that name something. -/
def segments (path : Path) : List String :=
  path.pieces.filter fun s => s ≠ "" && s ≠ "."

/-- Whether the path can only name a directory, because of a slash or a `.` at its end. -/
def namesDirectory (path : Path) : Bool :=
  match path.pieces.getLast? with
  | some last => last = "" || last = "."
  | none => false

/-- How many pieces of a path remain up to the last one that counts: a piece counts if it is not
empty, and a `.` only at the very front. -/
def countedPieces : List String → Nat
  | [] => 0
  | front :: rest =>
    let tail := (rest.reverse.dropWhile fun s => s = "" || s = ".").length
    if tail = 0 then (if front = "" then 0 else 1) else tail + 1

/-- The path without its last segment, as it is written: nothing for a path without segments, and
empty text for a relative path with one. -/
def parent? (path : Path) : Option Path :=
  let pieces := path.pieces
  let counted := countedPieces pieces
  if counted = 0 then none
  else
    let front := pieces.take (counted - 1)
    let kept := front.take (countedPieces front)
    if kept.isEmpty then some (if path.isAbsolute then "/" else "")
    else some ("/".intercalate kept)

/-- The path of `inner` seen from a directory. -/
def join (directory inner : Path) : Path :=
  if inner.isAbsolute || directory.isEmpty then inner
  else if directory.toList.getLast? = some '/' then directory ++ inner
  else directory ++ "/" ++ inner

end Path

end JarRefit.Files
