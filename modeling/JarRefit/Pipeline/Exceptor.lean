import JarRefit.Archive.File
import JarRefit.Nesting.File
import JarRefit.Pipeline.Config
import JarRefit.Shell.Run

/-!
# Post-processing

The step between renaming and stripping, which makes the output archive out of the renamed one:
a program of its own, or a copy where none is set.
-/
namespace JarRefit.Pipeline

open Files

/-- What a post-processing step works on. -/
structure Request where
  inJar : Path
  outJar : Path
  config : Path
  log : Path
  /-- The patched nesting sheet, if there is one. -/
  sheet : Option Path := none
  applyMarkers : Bool := false
  generateParams : Bool := false
deriving DecidableEq, Repr

/-- Why the pipeline stops. -/
inductive Fault where
  /-- A rename table or an access transformer cannot be read. -/
  | access (path : Path) (fault : IoFault)
  /-- The symbol mapping cannot be read. -/
  | mapping (path : Path) (fault : IoFault)
  | rename (fault : Archive.RenameFileFault)
  | strip (fault : Archive.StripFileFault)
  | io (path : Path) (fault : IoFault)
  | sheet (path : Path) (fault : Json.Fault)
  /-- A program cannot be launched. -/
  | notLaunched (program : String) (fault : IoFault)
  /-- A program fails, with its status, if it has one, and what it reported. -/
  | programFailed (program : String) (status : Option Nat) (report : String)
deriving DecidableEq, Repr

/-- The text of a fault that reading a rename table or an access transformer ends with. -/
def accessMessage (path : Path) (fault : IoFault) : String :=
  "failed to read '" ++ path ++ "': " ++ fault.message

/-- The text of a fault that reading a symbol mapping ends with. -/
def mappingMessage (path : Path) (fault : IoFault) : String :=
  "failed to read mapping '" ++ path ++ "': " ++ fault.message

/-- The text of a status that may be absent. -/
def statusText : Option Nat → String
  | some n => "Some(" ++ toString n ++ ")"
  | none => "None"

def Fault.message : Fault → String
  | access path fault => accessMessage path fault
  | mapping path fault => mappingMessage path fault
  | rename fault => fault.message
  | strip fault => fault.message
  | io path fault => "IO error on '" ++ path ++ "': " ++ fault.message
  | sheet path _ => "invalid structural descriptor '" ++ path ++ "'"
  | notLaunched program fault =>
    "Failed to spawn CLI '" ++ program ++ "': " ++ fault.message
  | programFailed program status report =>
    "CLI '" ++ program ++ "' execution failed (status=" ++ statusText status ++ "): " ++ report

/-- A fault of a nesting sheet's file as one of the pipeline. -/
def Fault.ofSheet : Nesting.FileFault → Fault
  | .io path fault => .io path fault
  | .sheet path fault => .sheet path fault

/-- A step that makes the output archive of a request. -/
abbrev PostProcessor := Request → Run Fault Unit

/-- Makes the directories above a file. -/
def ensureParent (path : Path) : Run Fault Unit :=
  match Path.parent? path with
  | some parent =>
    if parent.isEmpty then pure ()
    else Run.onStore (.io parent) (Store.makeDirectories parent)
  | none => pure ()

/-- Passes the archive on unchanged. -/
def copyThrough : PostProcessor := fun request => do
  ensureParent request.outJar
  Run.changeStore (.io request.outJar) fun s => s.copy request.inJar request.outJar

namespace Command

/-- The arguments for a request: the command's own ones, the four files, and what is optional. -/
def arguments (c : Command) (request : Request) : List String :=
  c.args ++ [request.inJar, request.outJar, request.config, request.log] ++
    (match request.sheet with
      | some sheet => ["--json", sheet]
      | none => []) ++
    (if request.applyMarkers then ["--markers"] else []) ++
    (if request.generateParams then ["--params"] else [])

/-- Lets a program make the output archive. -/
def process (c : Command) : PostProcessor := fun request => do
  ensureParent request.outJar
  ensureParent request.log
  match ← Shell.launch c.program (c.arguments request) with
  | .error fault => throw (.notLaunched c.program fault)
  | .ok exit =>
    if exit.status = some 0 then Run.report (.postProcessed request.outJar)
    else
      let report := String.ofList (Text.trim (Utf8.decodeLossy exit.errors).toList)
      throw (.programFailed c.program exit.status report)

end Command

/-- The step that a configuration sets. -/
def Config.postProcessor (c : Config) : PostProcessor :=
  match c.exceptor with
  | some command => command.process
  | none => copyThrough

end JarRefit.Pipeline
