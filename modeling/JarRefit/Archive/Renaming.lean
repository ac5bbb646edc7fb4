import JarRefit.Archive.Hierarchy
import JarRefit.ClassFile.Widening
import JarRefit.Renaming.Class

/-!
# Renaming an archive

Entry by entry: class files are renamed, widened and stored under the new name of their class;
other files are copied; directories are copied or dropped. The first class file for which that
fails ends the run, and what was written before it stays.
-/
namespace JarRefit.Archive

open ClassFile Naming

/-- Why an archive cannot be renamed. -/
inductive RenamingFault where
  /-- The data of an entry is no class file. -/
  | malformedClass (entry : String) (fault : Fault)
  /-- A class file could not be changed. -/
  | rewriting (fault : Fault)
deriving DecidableEq, Repr

def RenamingFault.message : RenamingFault → String
  | malformedClass entry fault => "malformed class '" ++ entry ++ "': " ++ fault.message
  | rewriting fault => "class rewrite failed: " ++ fault.message

/-- What renaming goes by. -/
structure RenamingJob where
  mapping : SymbolMapping
  /-- The access changes to apply to renamed classes. -/
  access : Access.Table
  copyDirectories : Bool := false

/-- What renaming has done so far. -/
structure RenamingState where
  /-- The entries written, the last one first. -/
  written : List Entry := []
  classes : Nat := 0
  resources : Nat := 0
  directoriesSkipped : Nat := 0
deriving DecidableEq, Repr

namespace RenamingJob

/-- The bytes of a class file after renaming and widening, and the new name of the class. -/
def renameData (job : RenamingJob) (entry : String) (data : List UInt8) :
    Except RenamingFault (String × List UInt8) :=
  match ClassFile.decode data with
  | .error e => .error (.malformedClass entry e)
  | .ok c =>
    match (do let name ← ClassFile.rename job.mapping; ClassFile.widen job.access; return name :
        ClassM String) c with
    | .error e _ => .error (.rewriting e)
    | .ok name c => .ok (name, c.encode)

/-- Does one entry. -/
def renameEntry (job : RenamingJob) (e : Entry) : EStateM RenamingFault RenamingState Unit :=
  fun s =>
    if e.isDirectory then
      .ok () (if job.copyDirectories then { s with written := e :: s.written }
        else { s with directoriesSkipped := s.directoriesSkipped + 1 })
    else if e.isClass then
      match job.renameData e.name e.data with
      | .error fault => .error fault s
      | .ok (name, data) =>
        .ok () { s with
          written := Entry.file (name ++ classSuffix) data e.time :: s.written
          classes := s.classes + 1 }
    else .ok () { s with written := e :: s.written, resources := s.resources + 1 }

/-- Does the entries one after another. -/
def renameAll (job : RenamingJob) (entries : List Entry) :
    EStateM RenamingFault RenamingState Unit :=
  entries.forM job.renameEntry

end RenamingJob

end JarRefit.Archive
