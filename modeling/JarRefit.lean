import JarRefit.Access.Change
import JarRefit.Access.Directive
import JarRefit.Access.Flags
import JarRefit.Access.RenameTable
import JarRefit.Access.Table
import JarRefit.Archive.Container
import JarRefit.Archive.Entry
import JarRefit.Archive.File
import JarRefit.Archive.Hierarchy
import JarRefit.Archive.Renaming
import JarRefit.Archive.Stripping
import JarRefit.ClassFile.Basic
import JarRefit.ClassFile.Bytes
import JarRefit.ClassFile.Constant
import JarRefit.ClassFile.Fault
import JarRefit.ClassFile.Pool
import JarRefit.ClassFile.Stripping
import JarRefit.ClassFile.Widening
import JarRefit.CommandLine.Options
import JarRefit.Decimal.Layout
import JarRefit.Decimal.Nearest
import JarRefit.Decimal.Shortest
import JarRefit.Document.Unfit
import JarRefit.Files.Path
import JarRefit.Files.Store
import JarRefit.Files.World
import JarRefit.Json.Printer
import JarRefit.Json.Reader
import JarRefit.Json.Reading
import JarRefit.Json.Scan
import JarRefit.Json.Value
import JarRefit.Main
import JarRefit.Naming.Descriptor
import JarRefit.Naming.Hierarchy
import JarRefit.Naming.Signature
import JarRefit.Naming.Srg
import JarRefit.Naming.SymbolMapping
import JarRefit.Nesting.File
import JarRefit.Nesting.Patch
import JarRefit.Nesting.Sheet
import JarRefit.Notice
import JarRefit.Pipeline.Config
import JarRefit.Pipeline.Exceptor
import JarRefit.Pipeline.Process
import JarRefit.Proofs.Access.Bits
import JarRefit.Proofs.Access.Directive
import JarRefit.Proofs.Access.Sequence
import JarRefit.Proofs.Access.Table
import JarRefit.Proofs.Access.Widening
import JarRefit.Proofs.ClassFile.Bytes
import JarRefit.Proofs.ClassFile.Constants
import JarRefit.Proofs.ClassFile.Growth
import JarRefit.Proofs.ClassFile.Rereading
import JarRefit.Proofs.ClassFile.RoundTrip
import JarRefit.Proofs.Naming.Descriptor
import JarRefit.Proofs.Naming.Hierarchy
import JarRefit.Proofs.Naming.Signature
import JarRefit.Proofs.Nesting.Patch
import JarRefit.Proofs.Renaming.Class
import JarRefit.Proofs.Renaming.Declarations
import JarRefit.Proofs.Renaming.Idle
import JarRefit.Proofs.Renaming.Interning
import JarRefit.Proofs.Renaming.NestedRecords
import JarRefit.Proofs.Renaming.PoolEdits
import JarRefit.Proofs.Renaming.References
import JarRefit.Proofs.Renaming.Unchanged
import JarRefit.Proofs.Renaming.Work
import JarRefit.Proofs.Text.Digit
import JarRefit.Proofs.Text.Split
import JarRefit.Renaming.Class
import JarRefit.Renaming.Desk
import JarRefit.Renaming.Interner
import JarRefit.Renaming.NestedNames
import JarRefit.Renaming.PoolEdit
import JarRefit.Shell.Commands
import JarRefit.Shell.Escapes
import JarRefit.Shell.Run
import JarRefit.Shell.Script
import JarRefit.Text.Blank
import JarRefit.Text.CodeRange
import JarRefit.Text.Combining
import JarRefit.Text.Digit
import JarRefit.Text.Quoted
import JarRefit.Text.Split
import JarRefit.Text.Undrawn
import JarRefit.Text.Utf8
import JarRefit.Toml.Moment
import JarRefit.Toml.Reader
import JarRefit.Toml.Scalar
import JarRefit.Toml.Scan
import JarRefit.Toml.Table
import JarRefit.Toml.Value
import JarRefit.Proofs.Naming.Reachability
import JarRefit.Proofs.Renaming.Extents
import JarRefit.Proofs.Renaming.Representable
import JarRefit.Proofs.Naming.Reading
import JarRefit.Proofs.Naming.Accepting
import JarRefit.Proofs.Naming.Composition
import JarRefit.Proofs.Naming.Grammar
import JarRefit.Proofs.Naming.Structural
import JarRefit.Proofs.Naming.Denotation
import JarRefit.Proofs.Files.Store
import JarRefit.Proofs.Files.Path
import JarRefit.Proofs.Files.World
import JarRefit.Proofs.Archive.File
import JarRefit.Proofs.Archive.Entrywise
import JarRefit.Proofs.Renaming.Agreement
import JarRefit.Proofs.Renaming.Body
import JarRefit.Proofs.Renaming.Exactness
import JarRefit.Proofs.Renaming.NestedNames
import JarRefit.Proofs.Archive.Names
import JarRefit.Proofs.ClassFile.Stripping
import JarRefit.Proofs.ClassFile.Truncation
import JarRefit.Proofs.ClassFile.MinimalStripping
import JarRefit.Proofs.Renaming.Members
import JarRefit.Proofs.Archive.Stripping
import JarRefit.Proofs.Archive.Cleaning
import JarRefit.Proofs.Pipeline.Stages
import JarRefit.Proofs.Pipeline.Cleaning
import JarRefit.Proofs.Naming.Resolution
import JarRefit.Proofs.Archive.Resolution
import JarRefit.Proofs.Naming.DescriptorTree
import JarRefit.Proofs.Archive.Filtering
import JarRefit.Proofs.Pipeline.Failing
import JarRefit.Proofs.Naming.Enclosing
import JarRefit.Proofs.Archive.Metadata
import JarRefit.Proofs.ClassFile.ClearedMembers
import JarRefit.Proofs.Archive.Report
import JarRefit.Proofs.Naming.Loading
import JarRefit.Proofs.Nesting.Entrywise
import JarRefit.Proofs.Json.Reading
import JarRefit.Proofs.Nesting.Sheet
import JarRefit.Proofs.Nesting.RoundTrip
import JarRefit.Proofs.Tables
import JarRefit.Proofs.Access.RenameTable
import JarRefit.Proofs.Access.Canonical
import JarRefit.Proofs.ClassFile.Building
import JarRefit.Proofs.ClassFile.Requests
import JarRefit.Proofs.Renaming.EditedPool
import JarRefit.Proofs.ClassFile.Rewidening
