import JarRefit.Shell.Commands
import JarRefit.Shell.Script

/-!
# Running programs

The programs that a run can launch, on its file store. There is one, the shell `sh`, with a handful
of commands; what it writes is kept as far as a file or the stream of errors holds it.
-/
namespace JarRefit.Shell

open Files

/-- How a program ends: with a status, or with none if a signal ends it. -/
structure Exit where
  status : Option Nat
  errors : List UInt8
deriving DecidableEq, Repr

/-- The state between two commands. -/
structure State where
  store : Store
  status : Nat := 0
  errors : List UInt8 := []
  /-- How the script ended, if it did. -/
  ended : Option (Option Nat) := none

/-! ### Words -/

/-- The value of a parameter as one text. -/
def Context.value (ctx : Context) (status : Nat) : Parameter → String
  | .argument 0 => ctx.name
  | .argument (n + 1) => ctx.args[n]?.getD ""
  | .arguments => " ".intercalate ctx.args
  | .argumentCount => toString ctx.args.length
  | .process => processNumber
  | .status => toString status
  | .variable _ => ""

/-- Adds texts to the fields of a word: the first one to the open field, and the others as fields of
their own. The last field stands first. -/
def addFields (fields : List String) : List String → List String
  | [] => fields
  | first :: more =>
    let joined := match fields with
      | [] => [first]
      | last :: rest => (last ++ first) :: rest
    more.reverse ++ joined

/-- The words of a text. -/
def splitBlanks (s : String) : List String :=
  (((s.map fun c => if c = '\t' || c = '\n' then ' ' else c).splitOn " ")).filter (· ≠ "")

/-- The fields that a word stands for. -/
def Context.fields (ctx : Context) (status : Nat) (word : Word) : List String :=
  (word.foldl (fun fields piece =>
    match piece with
    | .text s => addFields fields [s]
    | .parameter .arguments true => addFields fields ctx.args
    | .parameter p true => addFields fields [ctx.value status p]
    | .parameter p false => addFields fields (splitBlanks (ctx.value status p))) []).reverse

/-! ### Streams -/

/-- Where a stream goes while a command runs. -/
inductive Sink where
  | output
  | errors
  | file (path : Path)
deriving DecidableEq, Repr

/-- The sinks of the two streams. -/
structure Sinks where
  output : Sink := .output
  errors : Sink := .errors

def Sinks.of (s : Sinks) : Stream → Sink
  | .output => s.output
  | .errors => s.errors

def Sinks.set (s : Sinks) (sink : Sink) : Stream → Sinks
  | .output => { s with output := sink }
  | .errors => { s with errors := sink }

/-- Opens the files of redirections. The fault is the text of a message. -/
def Context.redirect (ctx : Context) (status : Nat) (store : Store) (sinks : Sinks) :
    List (Stream × Target) → Except String (Store × Sinks)
  | [] => .ok (store, sinks)
  | (stream, .stream other) :: rest =>
    ctx.redirect status store (sinks.set (sinks.of other) stream) rest
  | (stream, .file name append) :: rest =>
    let path := " ".intercalate (ctx.fields status name)
    let kept := match append, store.content path with
      | true, .ok content => content
      | _, _ => .bytes []
    match store.write path kept with
    | .ok store => ctx.redirect status store (sinks.set (.file path) stream) rest
    | .error e =>
      let why := match e with
        | .noEntry => "Directory nonexistent"
        | e => reason e
      .error (ctx.name ++ ": 1: cannot create " ++ path ++ ": " ++ why ++ "\n")

/-- The bytes of a file; those of an archive are not known. -/
def contentBytes : Content → List UInt8
  | .bytes data => data
  | .archive _ => []

/-- Pieces in a row. An archive that nothing stands beside stays one. -/
def joinContents (pieces : List Content) : Content :=
  match pieces.filter (· ≠ .bytes []) with
  | [.archive entries] => .archive entries
  | pieces => .bytes (pieces.flatMap contentBytes)

/-- Hands pieces to a sink. -/
def State.deliver (s : State) (pieces : List Content) : Sink → State
  | .output => s
  | .errors => { s with errors := s.errors ++ pieces.flatMap contentBytes }
  | .file path =>
    match pieces, s.store.content path with
    | _ :: _, .ok before =>
      match s.store.write path (joinContents (before :: pieces)) with
      | .ok store => { s with store }
      | .error _ => s
    | _, _ => s

/-- Runs one command, unless the script has ended or the status before it forbids it. -/
def Context.step (ctx : Context) (s : State) (c : Command) : State :=
  let runs := match c.joint with
    | .always => true
    | .onSuccess => s.status = 0
    | .onFailure => s.status ≠ 0
  if s.ended.isSome || !runs then s
  else
    match ctx.redirect s.status s.store {} c.redirections with
    | .error message => { s with status := 2, errors := s.errors ++ Utf8.encode message }
    | .ok (store, sinks) =>
      let effect := ctx.execute store s.status (c.words.flatMap (ctx.fields s.status))
      let s := { s with store := effect.store, status := effect.status, ended := effect.ended }
      let s := s.deliver effect.output sinks.output
      s.deliver [.bytes (Utf8.encode effect.errors)] sinks.errors

/-- Runs a script to its end. -/
def Context.run (ctx : Context) (store : Store) (text : String) : Exit × Store :=
  match Script.parse? text with
  | none => (⟨some 2, Utf8.encode (ctx.name ++ ": 1: Syntax error\n")⟩, store)
  | some script =>
    let s := script.foldl ctx.step { store }
    (⟨s.ended.getD (some s.status), s.errors⟩, s.store)

/-- Runs the shell, launched by some name, with its arguments: a script, its name and its arguments
after `-c`, or else a file that holds the script. -/
def runShell (shell : String) (store : Store) : List String → Exit × Store
  | "-c" :: script :: name :: args => Context.run ⟨name, args⟩ store script
  | ["-c", script] => Context.run ⟨shell, []⟩ store script
  | ["-c"] => (⟨some 2, Utf8.encode (shell ++ ": 0: -c requires an argument\n")⟩, store)
  | [] => (⟨some 0, []⟩, store)
  | file :: args =>
    match store.readText file with
    | .ok script => Context.run ⟨file, args⟩ store script
    | .error _ =>
      (⟨some 2, Utf8.encode (shell ++ ": 0: cannot open " ++ file ++ ": No such file\n")⟩, store)

/-- The names by which the shell is launched. -/
def shellNames : List String := ["sh", "/bin/sh", "/usr/bin/sh"]

/-- The longest argument of a program, in bytes. -/
def longestArgument : Nat := 131071

/-- Launches a program, if there is one of that name. -/
def launch {ε : Type} (program : String) (args : List String) :
    Run ε (Except IoFault Exit) := fun w =>
  if (program :: args).any (·.contains (Char.ofNat 0)) then .ok (.error .nulInArgument) w
  else if program ∉ shellNames then .ok (.error (launchFault w.store program)) w
  else if args.any (longestArgument < ·.utf8ByteSize) then .ok (.error .argumentTooLong) w
  else
    let (exit, store) := runShell program w.store args
    .ok (.ok exit) { w with store }

end JarRefit.Shell
