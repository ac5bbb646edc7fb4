/-!
# Notices

What a run reports besides its result. A notice is a cause; its level, its text and its fields
are read off it by `Notice.level`, `Notice.message` and `Notice.fields`.
-/
namespace JarRefit

/-- How much a notice matters. -/
inductive Level where
  | debug
  | info
  | warn
deriving DecidableEq, Repr

/-- The word for a level. -/
def Level.keyword : Level → String
  | .debug => "DEBUG"
  | .info => "INFO"
  | .warn => "WARN"

/-- The value of a notice's field. -/
inductive Notice.Field where
  | text (value : String)
  | count (value : Nat)
deriving DecidableEq, Repr

/-- One report of a run. -/
inductive Notice where
  /-- An access directive names no symbol. -/
  | directiveWithoutTarget (line : String)
  /-- An access directive has more than three words. -/
  | directiveTrailingWords (line : String)
  /-- A symbol has its first access change. -/
  | accessChange (symbol access : String)
  /-- A symbol's access change was merged with another one. -/
  | accessChangeMerged (symbol old new : String)
  | transformerLoaded (path : String) (directives : Nat)
  /-- A mapping line has no known form. -/
  | mappingLineMalformed (line : Nat) (content : String)
  /-- A class file does not tell its parents. -/
  | classWithoutHierarchy (cls error : String)
  | configKeyUnknown (config key : String)
  | renamingArchive
  | transformerUsed (transformer : String)
  | archiveRenamed (input output : String) (classes resources : Nat)
  | postProcessing
  | transformerPatching (transformer : String)
  | postProcessed (output : String)
  | strippingArchive
  | archiveStripped (output : String) (rewritten dropped : Nat)
deriving DecidableEq, Repr

namespace Notice

def level : Notice → Level
  | directiveWithoutTarget _ | directiveTrailingWords _ | mappingLineMalformed _ _
  | classWithoutHierarchy _ _ | configKeyUnknown _ _ => .warn
  | accessChangeMerged _ _ _ => .debug
  | accessChange _ _ | transformerLoaded _ _ | renamingArchive | transformerUsed _
  | archiveRenamed _ _ _ _ | postProcessing | transformerPatching _ | postProcessed _
  | strippingArchive | archiveStripped _ _ _ => .info

def message : Notice → String
  | directiveWithoutTarget _ => "skipping access transformer line without a target"
  | directiveTrailingWords _ => "ignoring trailing tokens in access transformer line"
  | accessChange _ _ => "access change"
  | accessChangeMerged _ _ _ => "merged access change"
  | transformerLoaded _ _ => "loaded access transformer"
  | mappingLineMalformed _ _ => "skipping malformed srg line"
  | classWithoutHierarchy _ _ => "class ignored for inheritance lookup"
  | configKeyUnknown _ _ => "ignoring unknown config key"
  | renamingArchive => "applying srg mapping and access transformers"
  | transformerUsed _ => "using access transformer"
  | archiveRenamed _ _ _ _ => "remap complete"
  | postProcessing => "applying exceptor"
  | transformerPatching _ => "loading access transformer"
  | postProcessed _ => "exceptor finished"
  | strippingArchive => "stripping synthetics"
  | archiveStripped _ _ _ => "synthetic markers stripped"

def fields : Notice → List (String × Field)
  | directiveWithoutTarget line | directiveTrailingWords line => [("line", .text line)]
  | accessChange symbol access => [("symbol", .text symbol), ("access", .text access)]
  | accessChangeMerged symbol old new =>
    [("symbol", .text symbol), ("from", .text old), ("to", .text new)]
  | transformerLoaded path directives =>
    [("path", .text path), ("directives", .count directives)]
  | mappingLineMalformed line content => [("line", .count line), ("content", .text content)]
  | classWithoutHierarchy cls error => [("class", .text cls), ("error", .text error)]
  | configKeyUnknown config key => [("config", .text config), ("key", .text key)]
  | renamingArchive | postProcessing | strippingArchive => []
  | transformerUsed transformer | transformerPatching transformer =>
    [("transformer", .text transformer)]
  | archiveRenamed input output classes resources =>
    [("input", .text input), ("output", .text output), ("classes", .count classes),
      ("resources", .count resources)]
  | postProcessed output => [("output", .text output)]
  | archiveStripped output rewritten dropped =>
    [("output", .text output), ("rewritten", .count rewritten), ("dropped", .count dropped)]

end Notice

end JarRefit
