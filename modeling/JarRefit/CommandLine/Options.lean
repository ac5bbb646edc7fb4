import JarRefit.Pipeline.Config
import JarRefit.Text.Split

/-!
# Command line options

The options of the command line, and how they change a configuration. The words are read from the
left. The value of an option is looked at only when the next option begins or the words end: a word
that is no option at all is reported before a faulty value right in front of it.
-/
namespace JarRefit.CommandLine

open Files (Path)
open Pipeline (Config)

/-- What a command line asks for. -/
structure Options where
  config : Path := "jx.toml"
  inJar : Option Path := none
  transformers : List Path := []
  stripSynthetics : Bool := false
  workDir : Option Path := none
  verbose : Bool := false
deriving DecidableEq, Repr

/-- Why a command line is not followed. -/
inductive UsageFault where
  | unknownArgument
  /-- The value of an option is missing or empty. -/
  | invalidValue
  /-- An option that may stand once stands twice. -/
  | repeated
  /-- An option without value has one. -/
  | unneededValue
  | helpRequested
deriving DecidableEq, Repr

/-- An option with a value. -/
inductive Setting where
  | config
  | inJar
  | transformer
  | workDir
deriving DecidableEq, Repr

/-- An option without value. -/
inductive Switch where
  | stripSynthetics
  | verbose
  | help
deriving DecidableEq, Repr

/-- The option of a long name. -/
def longOption? : String → Option (Setting ⊕ Switch)
  | "config" => some (.inl .config)
  | "in-jar" => some (.inl .inJar)
  | "at" => some (.inl .transformer)
  | "work-dir" => some (.inl .workDir)
  | "strip-synthetics" => some (.inr .stripSynthetics)
  | "verbose" => some (.inr .verbose)
  | "help" => some (.inr .help)
  | _ => none

/-- The option of a letter. -/
def shortOption? : Char → Option (Setting ⊕ Switch)
  | 'c' => some (.inl .config)
  | 'v' => some (.inr .verbose)
  | 'h' => some (.inr .help)
  | _ => none

/-- What has been read of a command line. -/
structure Progress where
  options : Options := {}
  /-- The options that have been followed. -/
  seen : List (Setting ⊕ Switch) := []
  /-- An option that is still to be followed, with its value once that is known. -/
  pending : Option (Setting × Option String) := none

namespace Progress

/-- Follows an option with its value. -/
def set (p : Progress) (setting : Setting) (value : String) : Except UsageFault Progress :=
  if setting ≠ .transformer ∧ p.seen.contains (.inl setting) then .error .repeated
  else if value.isEmpty then .error .invalidValue
  else
    let options := match setting with
      | .config => { p.options with config := value }
      | .inJar => { p.options with inJar := some value }
      | .transformer => { p.options with transformers := p.options.transformers ++ [value] }
      | .workDir => { p.options with workDir := some value }
    .ok { options, seen := .inl setting :: p.seen }

/-- Follows the option that is still to be followed. -/
def settle (p : Progress) : Except UsageFault Progress :=
  match p.pending with
  | none => .ok p
  | some (_, none) => .error .invalidValue
  | some (setting, some value) => p.set setting value

/-- Follows an option without value. -/
def switch (p : Progress) (s : Switch) : Except UsageFault Progress := do
  let p ← p.settle
  if s = .help then throw .helpRequested
  if p.seen.contains (.inr s) then throw .repeated
  let options := match s with
    | .stripSynthetics => { p.options with stripSynthetics := true }
    | .verbose => { p.options with verbose := true }
    | .help => p.options
  return { options, seen := .inr s :: p.seen }

/-- Begins an option, whose value is attached to it or still to come. -/
def start (p : Progress) (setting : Setting) (value : Option String) :
    Except UsageFault Progress := do
  let p ← p.settle
  match value with
  | some value => p.set setting value
  | none => return { p with pending := some (setting, none) }

/-- Reads a word that begins with two hyphens, after them. -/
def long (p : Progress) (word : List Char) : Except UsageFault Progress :=
  let (name, value) := match Text.cut? '=' word with
    | some (name, value) => (name, some (String.ofList value))
    | none => (word, none)
  match longOption? (String.ofList name), value with
  | some (.inl setting), value => p.start setting value
  | some (.inr s), none => p.switch s
  | some (.inr _), some _ => .error .unneededValue
  | none, _ => .error .unknownArgument

/-- Reads the letters of a word after its hyphen. An option with a value takes the rest of the word,
which an equals sign may part from the letter. -/
def short (p : Progress) : List Char → Except UsageFault Progress
  | [] => .ok p
  | letter :: rest =>
    match shortOption? letter with
    | none => .error .unknownArgument
    | some (.inr s) => do short (← p.switch s) rest
    | some (.inl setting) =>
      match rest with
      | [] => p.start setting none
      | '=' :: value => p.start setting (some (String.ofList value))
      | value => p.start setting (some (String.ofList value))

/-- Reads a word that is no option: the value of the option before it. -/
def plain (p : Progress) (word : String) : Except UsageFault Progress :=
  match p.pending with
  | some (setting, none) => .ok { p with pending := some (setting, some word) }
  | _ => .error .unknownArgument

/-- Reads words. Nothing may follow two hyphens by themselves. -/
def words (p : Progress) : List String → Except UsageFault Progress
  | [] => p.settle
  | word :: rest =>
    match word.toList with
    | ['-', '-'] => if rest.isEmpty then p.settle else .error .unknownArgument
    | '-' :: '-' :: name => do words (← p.long name) rest
    | '-' :: letter :: letters => do words (← p.short (letter :: letters)) rest
    | _ => do words (← p.plain word) rest

end Progress

namespace Options

/-- The options of a command line, without the name of the program. -/
def parse (words : List String) : Except UsageFault Options :=
  (Progress.words {} words).map (·.options)

/-- A configuration with the options put over it. -/
def override (o : Options) (c : Config) : Config :=
  { o.transformers.foldl Config.addTransformer c with
    inJar := o.inJar.getD c.inJar
    workDir := o.workDir.getD c.workDir
    stripSynthetics := c.stripSynthetics || o.stripSynthetics }

end Options

end JarRefit.CommandLine
