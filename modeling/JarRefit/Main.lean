import JarRefit.Archive.Container
import JarRefit.CommandLine.Options
import JarRefit.Pipeline.Process

/-!
# The program

Reads the files that a configuration names into a store, runs the pipeline on it, and writes back
what has changed. Reports go to the stream of errors and the path of the result to the output.
-/
namespace JarRefit

open Files CommandLine Pipeline

/-- How the program is used. -/
def usage : String :=
  "Usage: jx [-c|--config FILE] [--in-jar FILE] [--at FILE]... [--strip-synthetics]\n" ++
    "          [--work-dir DIR] [-v|--verbose]"

/-- What is said about a command line that is not followed. -/
def usageText : UsageFault → String
  | .unknownArgument => "error: unexpected argument\n" ++ usage
  | .invalidValue => "error: an option needs a value\n" ++ usage
  | .repeated => "error: an option cannot be used twice\n" ++ usage
  | .unneededValue => "error: an option takes no value\n" ++ usage
  | .helpRequested => usage

/-- The files that a configuration names as inputs. -/
def inputs (c : Config) : List Path :=
  [c.inJar, c.srg] ++ c.fieldTable.toList ++ c.methodTable.toList ++ c.exceptorSheet.toList ++
    c.transformers

/-- A notice on one line. -/
def noticeLine (n : Notice) : String :=
  let fields := n.fields.map fun (name, value) =>
    " " ++ name ++ "=" ++ match value with
      | .text s => s
      | .count k => toString k
  n.level.keyword ++ " " ++ n.message ++ "".intercalate fields

/-- Whether a notice is shown. -/
def isShown (verbose : Bool) (n : Notice) : Bool :=
  verbose || n.level != .debug

/-- The content of a file with these bytes. -/
def contentOf (bytes : ByteArray) : Content :=
  match Archive.Container.decode? bytes with
  | some entries => .archive entries
  | none => .bytes bytes.toList

def bytesOf : Content → ByteArray
  | .bytes data => ⟨data.toArray⟩
  | .archive entries => ⟨(Archive.Container.encode entries).toArray⟩

/-- Reads a file into a store, if it is there and the store can hold it. -/
def readInto (store : Store) (path : Path) : IO Store := do
  match store.relativeSegments? path with
  | none => return store
  | some place =>
    if place.contains ".." then return store
    try
      return store.plant place (.file (contentOf (← IO.FS.readBinFile path)))
    catch _ => return store

/-- Writes the files and directories that a store has and an earlier one has not. -/
def writeChanges (before after : Store) : IO Unit :=
  for (place, node) in after.nodes.toList do
    if before.node? place != some node then
      match node with
      | .directory => IO.FS.createDirAll ("/".intercalate place)
      | .file content =>
        if place.length > 1 then IO.FS.createDirAll ("/".intercalate place.dropLast)
        IO.FS.writeBinFile ("/".intercalate place) (bytesOf content)

/-- Shows the reports of a run and writes its files. -/
def finishRun (verbose : Bool) (before : Store) (w : World) : IO Unit := do
  for n in w.reports.reverse do
    if isShown verbose n then IO.eprintln (noticeLine n)
  writeChanges before w.store

/-- Runs the pipeline in the working directory as the options ask. -/
def runProgram (o : Options) : IO UInt32 := do
  let store ← readInto { root := (← IO.currentDir).toString } o.config
  match Config.load o.config { store } with
  | .error fault _ =>
    IO.eprintln ("error: " ++ fault.message)
    return 1
  | .ok c w =>
    let c := o.override c
    let store ← (inputs c).foldlM readInto w.store
    match Pipeline.run c { w with store } with
    | .error fault w =>
      finishRun o.verbose store w
      IO.eprintln ("error: " ++ fault.message)
      return 1
    | .ok _ w =>
      finishRun o.verbose store w
      IO.println c.outputJar
      return 0

end JarRefit

def main (args : List String) : IO UInt32 := do
  match JarRefit.CommandLine.Options.parse args with
  | .ok options => JarRefit.runProgram options
  | .error .helpRequested =>
    IO.println JarRefit.usage
    return 0
  | .error fault =>
    IO.eprintln (JarRefit.usageText fault)
    return 2
