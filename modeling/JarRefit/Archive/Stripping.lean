import JarRefit.Archive.Entry
import JarRefit.ClassFile.Stripping

/-!
# Stripping an archive

Entry by entry: metadata is dropped, class files lose the synthetic markers of their members, and
everything else is copied. The first class file that cannot be read ends the run, and what was
written before it stays.
-/
namespace JarRefit.Archive

open ClassFile

/-- The class file at which stripping ended, and why. -/
structure StrippingFault where
  entry : String
  fault : Fault
deriving DecidableEq, Repr

def StrippingFault.message (f : StrippingFault) : String :=
  "malformed class '" ++ f.entry ++ "': " ++ f.fault.message

/-- The figures of a run. -/
structure StrippingReport where
  classesRewritten : Nat := 0
  /-- Not counted: always 0. -/
  membersCleared : Nat := 0
  metadataDropped : Nat := 0
  entriesCopied : Nat := 0
deriving DecidableEq, Repr

/-- What stripping has done so far. -/
structure StrippingState where
  /-- The entries written, the last one first. -/
  written : List Entry := []
  report : StrippingReport := {}
deriving DecidableEq, Repr

/-- Does one entry. -/
def stripEntry (e : Entry) : EStateM StrippingFault StrippingState Unit := fun s =>
  let copied : StrippingState :=
    ⟨e :: s.written, { s.report with entriesCopied := s.report.entriesCopied + 1 }⟩
  if e.isMetadata then
    .ok () { s with report := { s.report with metadataDropped := s.report.metadataDropped + 1 } }
  else if e.isClass then
    match ClassFile.stripBytes? e.data with
    | .error fault => .error ⟨e.name, fault⟩ s
    | .ok none => .ok () copied
    | .ok (some data) =>
      .ok () ⟨{ e with data } :: s.written,
        { s.report with classesRewritten := s.report.classesRewritten + 1 }⟩
  else .ok () copied

/-- Does the entries one after another. -/
def stripAll (entries : List Entry) : EStateM StrippingFault StrippingState Unit :=
  entries.forM stripEntry

end JarRefit.Archive
