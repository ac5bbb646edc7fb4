import JarRefit.Archive.Renaming
import JarRefit.Archive.Stripping
import JarRefit.Files.World

/-!
# Archives in files

Reads an archive from a file of the store, renames or strips it, and writes the result to another
file. The entries are read while the output is written: an output in the place of the input leaves
nothing to read. Whatever ends a run, the output then holds the entries written so far.
-/
namespace JarRefit.Archive

open Files

/-- Why an archive cannot be read or written. -/
inductive FileFault where
  | io (path : Path) (fault : IoFault)
  | notArchive (path : Path)
deriving DecidableEq, Repr

def FileFault.message : FileFault → String
  | io path fault => "IO error on archive '" ++ path ++ "': " ++ fault.message
  | notArchive path => "no archive: '" ++ path ++ "'"

/-- Why the file of an archive cannot be renamed into another one. -/
inductive RenameFileFault where
  | file (fault : FileFault)
  | entry (fault : RenamingFault)
deriving DecidableEq, Repr

def RenameFileFault.message : RenameFileFault → String
  | file fault => fault.message
  | entry fault => fault.message

/-- Why the file of an archive cannot be stripped into another one. -/
inductive StripFileFault where
  | file (fault : FileFault)
  | entry (fault : StrippingFault)
deriving DecidableEq, Repr

def StripFileFault.message : StripFileFault → String
  | file fault => fault.message
  | entry fault => fault.message

/-- The entries of the archive in a file. -/
def readArchive (path : Path) : Run FileFault (List Entry) := fun w =>
  match w.store.content path with
  | .ok (.archive entries) => .ok entries w
  | .ok (.bytes _) => .error (.notArchive path) w
  | .error .isDirectory => .error (.notArchive path) w
  | .error fault => .error (.io path fault) w

/-- Makes an empty file for an archive, and the directories above it. -/
def createArchive (path : Path) : Run FileFault Place := do
  match Path.parent? path with
  | some parent =>
    if ¬ parent.isEmpty then
      Run.onStore (FileFault.io parent) (Store.makeDirectories parent)
  | none => pure ()
  Run.ofStore (FileFault.io path) fun s => s.create path (.bytes [])

/-- Puts entries into the file of an archive. -/
def fillArchive {ε : Type} (place : Place) (entries : List Entry) : Run ε Unit :=
  modify fun w =>
    { w with store := w.store.put place (.file (.archive (entries.map Entry.stored))) }

/-- Writes an archive to a file. -/
def writeArchive (path : Path) (entries : List Entry) : Run FileFault Unit := do
  let place ← createArchive path
  fillArchive place entries

/-- The entries of an input of which the output has just been made: if it had any, the input has to
be there still. -/
def rereadArchive (path : Path) (entries : List Entry) : Run FileFault Unit := fun w =>
  match entries, w.store.content path with
  | [], _ | _, .ok (.archive _) => .ok () w
  | _, _ => .error (.notArchive path) w

/-- Renames the archive of entries read from one file into another file. -/
def renameEntries (job : RenamingJob) (input : Path) (entries : List Entry) (output : Path) :
    Run RenameFileFault RenamingState := do
  let place ← (createArchive output).mapFault .file
  match rereadArchive input entries (← EStateM.get) with
  | .error fault _ =>
    fillArchive place []
    throw (.file fault)
  | .ok _ _ =>
    match job.renameAll entries {} with
    | .error fault done =>
      fillArchive place done.written.reverse
      throw (.entry fault)
    | .ok _ done =>
      fillArchive place done.written.reverse
      return done

/-- Renames the archive in one file into another file. Members are looked up along the hierarchy
that the archive declares. -/
def renameArchive (mapping : Naming.SymbolMapping) (access : Access.Table) (input output : Path) :
    Run RenameFileFault RenamingState := do
  let entries ← (readArchive input).mapFault .file
  Run.reportAll (hierarchyNotices entries)
  let mapping := { mapping with hierarchy := some ⟨[parentTable entries]⟩ }
  let done ← renameEntries { mapping, access } input entries output
  Run.report (.archiveRenamed input output done.classes done.resources)
  return done

/-- Strips the archive in one file into another file. -/
def stripArchive (input output : Path) : Run StripFileFault StrippingReport := do
  let entries ← (readArchive input).mapFault .file
  let place ← (createArchive output).mapFault .file
  match rereadArchive input entries (← EStateM.get) with
  | .error fault _ =>
    fillArchive place []
    throw (.file fault)
  | .ok _ _ =>
    match stripAll entries {} with
    | .error fault done =>
      fillArchive place done.written.reverse
      throw (.entry fault)
    | .ok _ done =>
      fillArchive place done.written.reverse
      Run.report (.archiveStripped output done.report.classesRewritten done.report.metadataDropped)
      return done.report

end JarRefit.Archive
