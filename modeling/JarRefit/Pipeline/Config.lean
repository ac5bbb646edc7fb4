import JarRefit.Files.World
import JarRefit.Toml.Moment
import JarRefit.Toml.Reader

/-!
# Configuration

What one run of the pipeline needs, read from a TOML document. Keys that mean nothing are kept by
name. The first entry of the document that does not fit is the fault; what is missing comes after
that, and last what is wrong inside the values of keys that mean nothing.
-/
namespace JarRefit.Pipeline

open Document (Unfit)
open Files (IoFault Path Run)
open Toml (Value)

/-- A program with the arguments that stand before those of a run. -/
structure Command where
  program : String
  args : List String := []
deriving DecidableEq, Repr

/-- The part of a configuration that may be left out. -/
structure Settings where
  fieldTable : Option Path := none
  methodTable : Option Path := none
  exceptorSheet : Option Path := none
  exceptorLog : Option Path := none
  accessTransformers : List Path := []
  /-- Access transformers on top of the clean set. -/
  extraAccessTransformers : List Path := []
  stripSynthetics : Bool := false
  applyMarkers : Bool := false
  gameVersion : String := "1.7.10"
  outDirtyJar : Path := "build/processed.jar"
  workDir : Path := "build/tmp/processJar"
  exceptor : Option Command := none
  /-- The keys without meaning, in the order of their text. -/
  unknownKeys : List String := []
deriving DecidableEq, Repr

/-- A configuration. -/
structure Config extends Settings where
  inJar : Path
  srg : Path
  exceptorConfig : Path
  outCleanJar : Path
deriving DecidableEq, Repr

namespace Config

/-- The version whose exceptor does not yet name parameters. -/
def versionWithoutParams : String := "1.7.2"

/-- The configuration with an access transformer on top of the clean set. -/
def addTransformer (c : Config) (path : Path) : Config :=
  { c with extraAccessTransformers := c.extraAccessTransformers ++ [path] }

def isClean (c : Config) : Bool :=
  c.extraAccessTransformers.isEmpty

/-- Where the result goes: a run without extra transformers has an output of its own. -/
def outputJar (c : Config) : Path :=
  if c.isClean then c.outCleanJar else c.outDirtyJar

/-- All access transformers in the order in which they apply. -/
def transformers (c : Config) : List Path :=
  c.accessTransformers ++ c.extraAccessTransformers

/-- The log of the exceptor, which lies in the work directory unless it is set. -/
def logPath (c : Config) : Path :=
  c.exceptorLog.getD (Path.join c.workDir "exceptor.log")

def generatesParams (c : Config) : Bool :=
  c.gameVersion != versionWithoutParams

end Config

/-! ### TOML -/

/-- The parts of a command that have been read so far. -/
structure CommandDraft where
  program : Option String := none
  args : List String := []

def CommandDraft.step (d : CommandDraft) (key : String) (v : Value) :
    Except Unfit CommandDraft := do
  match key with
  | "program" => return { d with program := ← v.text "a string" }
  | "args" => return { d with args := ← v.items (Value.text "a string") }
  | _ => return d

def CommandDraft.finish (d : CommandDraft) : Except Unfit Command :=
  match d.program with
  | some program => .ok ⟨program, d.args⟩
  | none => .error (.missingField "program")

/-- Reads a command: a table, or its program and its arguments in an array. -/
def Command.ofValue : Value → Except Unfit Command
  | .table entries => do
    (← entries.foldlM (fun d entry => d.step entry.1 entry.2) ({} : CommandDraft)).finish
  | .moment _ => CommandDraft.finish {}
  | .array [] => .error (.wrongLength 0 "struct ExceptorCommand with 2 elements")
  | .array (program :: rest) => do
    let program ← program.text "a string"
    match rest with
    | [] => return ⟨program, []⟩
    | args :: _ => return ⟨program, ← args.items (Value.text "a string")⟩
  | v => .error (v.unfit "struct ExceptorCommand")

/-- The parts of a configuration that have been read so far. -/
structure ConfigDraft where
  settings : Settings := {}
  inJar : Option Path := none
  srg : Option Path := none
  exceptorConfig : Option Path := none
  outCleanJar : Option Path := none
  /-- The entries whose keys mean nothing, the last one first. -/
  extras : Toml.Entries := []

/-- Reads a path. -/
def readPath (v : Value) : Except Unfit Path :=
  v.text "path string"

/-- Reads one entry of a configuration. -/
def ConfigDraft.step (d : ConfigDraft) (key : String) (v : Value) : Except Unfit ConfigDraft := do
  let s := d.settings
  match key with
  | "in_jar" => return { d with inJar := ← readPath v }
  | "srg" => return { d with srg := ← readPath v }
  | "exceptor_cfg" => return { d with exceptorConfig := ← readPath v }
  | "out_clean_jar" => return { d with outCleanJar := ← readPath v }
  | "field_csv" => return { d with settings := { s with fieldTable := ← readPath v } }
  | "method_csv" => return { d with settings := { s with methodTable := ← readPath v } }
  | "exceptor_json" => return { d with settings := { s with exceptorSheet := ← readPath v } }
  | "exceptor_log" => return { d with settings := { s with exceptorLog := ← readPath v } }
  | "access_transformers" =>
    return { d with settings := { s with accessTransformers := ← v.items readPath } }
  | "extra_access_transformers" =>
    return { d with settings := { s with extraAccessTransformers := ← v.items readPath } }
  | "strip_synthetics" => return { d with settings := { s with stripSynthetics := ← v.flag } }
  | "apply_markers" => return { d with settings := { s with applyMarkers := ← v.flag } }
  | "game_version" => return { d with settings := { s with gameVersion := ← v.text "a string" } }
  | "out_dirty_jar" => return { d with settings := { s with outDirtyJar := ← readPath v } }
  | "work_dir" => return { d with settings := { s with workDir := ← readPath v } }
  | "exceptor" => return { d with settings := { s with exceptor := some (← Command.ofValue v) } }
  | _ => return { d with extras := (key, v) :: d.extras }

/-- Takes a field that has to be there. -/
def required {α : Type} (name : String) : Option α → Except Unfit α
  | some a => .ok a
  | none => .error (.missingField name)

/-- Reads a configuration from the entries of a document. -/
def Config.ofEntries (entries : Toml.Entries) : Except Unfit Config := do
  let d ← entries.foldlM (fun d entry => d.step entry.1 entry.2) ({} : ConfigDraft)
  let inJar ← required "in_jar" d.inJar
  let srg ← required "srg" d.srg
  let exceptorConfig ← required "exceptor_cfg" d.exceptorConfig
  let outCleanJar ← required "out_clean_jar" d.outCleanJar
  Toml.checkEntries d.extras.reverse
  let unknownKeys := (d.extras.map (·.1)).mergeSort fun a b => decide (a ≤ b)
  return { d.settings with inJar, srg, exceptorConfig, outCleanJar, unknownKeys }

/-- Why a text is no configuration. -/
inductive Config.ParseFault where
  | malformed
  | unfit (reason : Unfit)
deriving DecidableEq, Repr

def Config.ParseFault.message : Config.ParseFault → String
  | malformed => "malformed TOML document"
  | unfit reason => reason.message

/-- Reads a configuration from text. -/
def Config.parse (text : String) : Except Config.ParseFault Config :=
  match Toml.parse? text with
  | none => .error .malformed
  | some entries => (Config.ofEntries entries).mapError .unfit

/-- Why a configuration cannot be loaded. -/
inductive Config.LoadFault where
  | io (path : Path) (fault : IoFault)
  | parse (path : Path) (fault : Config.ParseFault)
deriving DecidableEq, Repr

def Config.LoadFault.message : Config.LoadFault → String
  | io path fault => "failed to read config '" ++ path ++ "': " ++ fault.message
  | parse path fault => "failed to parse config '" ++ path ++ "': " ++ fault.message

/-- Reads the configuration in a file, and reports the keys without meaning. -/
def Config.load (path : Path) : Run Config.LoadFault Config := do
  let text ← Run.read (.io path) fun s => s.readText path
  match Config.parse text with
  | .error fault => throw (.parse path fault)
  | .ok c =>
    Run.reportAll (c.unknownKeys.map (.configKeyUnknown path))
    return c

end JarRefit.Pipeline
