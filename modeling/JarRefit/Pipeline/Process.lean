import JarRefit.Pipeline.Exceptor

/-!
# The pipeline

Renames one archive, lets a post-processing step work on it, and strips it if the configuration says
so. The intermediate files stay in the work directory. A fault ends the pipeline and leaves the
files written so far.
-/
namespace JarRefit.Pipeline

open Files

/-- The renamed archive in the work directory. -/
def renamedName : String := "deobfed.jar"

/-- The post-processed archive in the work directory, before it is stripped. -/
def postProcessedName : String := "excepted.jar"

/-- The patched nesting sheet in the work directory. -/
def patchedSheetName : String := "transformed.json"

namespace Config

def renamedJar (c : Config) : Path :=
  Path.join c.workDir renamedName

/-- Where the post-processing step writes to. -/
def postProcessedJar (c : Config) : Path :=
  if c.stripSynthetics then Path.join c.workDir postProcessedName else c.outputJar

/-- Where the patched nesting sheet goes, if one is configured. -/
def patchedSheet (c : Config) : Option Path :=
  c.exceptorSheet.map fun _ => Path.join c.workDir patchedSheetName

/-- What the post-processing step works on. -/
def request (c : Config) : Request :=
  { inJar := c.renamedJar
    outJar := c.postProcessedJar
    config := c.exceptorConfig
    log := c.logPath
    sheet := c.patchedSheet
    applyMarkers := c.applyMarkers
    generateParams := c.generatesParams }

end Config

/-- The absolute paths of the configured access transformers, each once. -/
def transformers (c : Config) : Run Fault (List Path) := do
  let found ← c.transformers.mapM fun path => Run.read (.io path) fun s => s.canonicalize path
  return found.eraseDups

/-- Reads the configured rename tables into one. -/
def loadRenames (c : Config) : Run Fault Access.RenameTable := do
  let paths := c.fieldTable.toList ++ c.methodTable.toList
  paths.foldlM (fun table path => do
    return table.load (← Run.read (.access path) fun s => s.readText path)) .empty

/-- Reads access transformers into one table, and reports about each. -/
def loadAccess (renames : Access.RenameTable) (paths : List Path) : Run Fault Access.Table :=
  paths.foldlM (fun table path => do
    Run.report (.transformerUsed path)
    let text ← Run.read (.access path) fun s => s.readText path
    Run.reportAll (table.loadNotices renames text .quiet)
    return table.load renames text) .empty

/-- Renames the input archive and widens its classes. -/
def rename (c : Config) (paths : List Path) : Run Fault Unit := do
  let srg ← Run.read (.mapping c.srg) fun s => s.readText c.srg
  Run.reportAll (Naming.Srg.notices srg)
  let renames ← loadRenames c
  let access ← loadAccess renames paths
  let mapping := Naming.SymbolMapping.empty.load srg
  let _ ← (Archive.renameArchive mapping access c.inJar c.renamedJar).mapFault .rename

/-- Patches the configured nesting sheet with the lines of the access transformers, as they are
written there. -/
def patchSheet (c : Config) (paths : List Path) : Run Fault Unit := do
  match c.exceptorSheet, c.patchedSheet with
  | some source, some target =>
    let sheet ← (Nesting.Sheet.load source).mapFault .ofSheet
    let patched ← paths.foldlM (fun (sheet : Nesting.Sheet) path => do
      Run.report (.transformerPatching path)
      let text ← Run.read (.io path) fun s => s.readText path
      return sheet.patch ((Text.lines text.toList).map String.ofList)) sheet
    (patched.save target).mapFault .ofSheet
  | _, _ => pure ()

/-- Everything up to the post-processing step. -/
def prepare (c : Config) : Run Fault Unit := do
  Run.onStore (.io c.workDir) (Store.makeDirectories c.workDir)
  let paths ← transformers c
  Run.report .renamingArchive
  rename c paths
  Run.report .postProcessing
  patchSheet c paths

/-- Everything after the post-processing step. -/
def finish (c : Config) : Run Fault Unit := do
  if c.stripSynthetics then
    Run.report .strippingArchive
    let _ ← (Archive.stripArchive c.postProcessedJar c.outputJar).mapFault .strip

/-- Runs the pipeline with a post-processing step. -/
def runWith (post : PostProcessor) (c : Config) : Run Fault Unit := do
  prepare c
  post c.request
  finish c

/-- Runs the pipeline as it is configured. -/
def run (c : Config) : Run Fault Unit :=
  runWith c.postProcessor c

end JarRefit.Pipeline
