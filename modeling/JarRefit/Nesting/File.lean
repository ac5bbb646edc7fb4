import JarRefit.Files.World
import JarRefit.Json.Printer
import JarRefit.Json.Reader
import JarRefit.Nesting.Patch

/-!
# Nesting sheets in files
-/
namespace JarRefit.Nesting

open Files

/-- Why a sheet cannot be loaded or saved. -/
inductive FileFault where
  | io (path : Path) (fault : IoFault)
  | sheet (path : Path) (fault : Json.Fault)
deriving DecidableEq, Repr

namespace Sheet

/-- Reads the text of a sheet. -/
def parse (text : String) : Except Json.Fault Sheet :=
  Json.readText ofReading text

/-- The text of a sheet. -/
def text (s : Sheet) : String :=
  s.toValue.pretty

/-- Reads the sheet in a file. -/
def load (path : Path) : Run FileFault Sheet := do
  let text ← Run.read (.io path) fun s => s.readText path
  match parse text with
  | .ok sheet => return sheet
  | .error fault => throw (.sheet path fault)

/-- Writes a sheet to a file, and makes the directories above it. -/
def save (sheet : Sheet) (path : Path) : Run FileFault Unit := do
  match Path.parent? path with
  | some parent => Run.onStore (.io parent) (Store.makeDirectories parent)
  | none => pure ()
  Run.changeStore (.io path) fun s => s.write path (.bytes (Utf8.encode sheet.text))

end Sheet

end JarRefit.Nesting
