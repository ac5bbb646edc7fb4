import JarRefit.Files.World
import JarRefit.Shell.Escapes

/-!
# Shell commands

What each command of the shell does, given its arguments: it changes the store, writes to two
streams and ends with a status.
-/
namespace JarRefit.Shell

open Files

/-- What a script knows besides the files. -/
structure Context where
  /-- The name that the script goes by in messages. -/
  name : String
  args : List String

/-- What one command does. -/
structure Effect where
  store : Store
  status : Nat := 0
  /-- What it writes, piece by piece. -/
  output : List Content := []
  errors : String := ""
  /-- How the script ends with it, if it does: with a status, or with none by a signal. -/
  ended : Option (Option Nat) := none

/-- A command that does nothing but fail. -/
def Effect.failure (store : Store) (status : Nat) (errors : String) : Effect :=
  { store, status, errors }

/-- The number of the shell's process. -/
def processNumber : String := "4242"

/-- The text of a fault after a file's name. -/
def reason : IoFault → String
  | .noEntry => "No such file or directory"
  | .alreadyExists => "File exists"
  | .notDirectory => "Not a directory"
  | .isDirectory => "Is a directory"
  | .nameTooLong => "File name too long"
  | .noPermission => "Permission denied"
  | .argumentTooLong => "Argument list too long"
  | .invalidText | .notRegularFile | .nulInName | .nulInArgument => "Invalid argument"

/-! ### Files -/

/-- The last segment of a path. -/
def lastSegment (path : Path) : String :=
  path.segments.getLast?.getD path

/-- The path of a file that goes by the name of `source` to `target`, which may be a directory. -/
def destination (store : Store) (source target : Path) : Path :=
  if store.isDirectory target then Path.join target (lastSegment source) else target

/-- Whether two paths lead to one place. -/
def samePlace (store : Store) (a b : Path) : Bool :=
  match store.resolve a, store.resolve b with
  | .ok a, .ok b => a == b
  | _, _ => false

/-- Copies a file to another path, or into a directory. -/
def copyFile (store : Store) (source target : Path) : Effect :=
  match store.content source with
  | .error .isDirectory =>
    .failure store 1 ("cp: -r not specified; omitting directory '" ++ source ++ "'\n")
  | .error e => .failure store 1 ("cp: cannot stat '" ++ source ++ "': " ++ reason e ++ "\n")
  | .ok content =>
    let target := destination store source target
    if samePlace store source target then
      .failure store 1 ("cp: '" ++ source ++ "' and '" ++ target ++ "' are the same file\n")
    else
      match store.write target content with
      | .ok store => { store }
      | .error e =>
        .failure store 1 ("cp: cannot create regular file '" ++ target ++ "': " ++ reason e ++ "\n")

/-- Moves a file to another path, or into a directory. -/
def moveFile (store : Store) (source target : Path) : Effect :=
  match store.content source with
  | .error e => .failure store 1 ("mv: cannot stat '" ++ source ++ "': " ++ reason e ++ "\n")
  | .ok content =>
    let target := destination store source target
    if samePlace store source target then
      .failure store 1 ("mv: '" ++ source ++ "' and '" ++ target ++ "' are the same file\n")
    else
      match store.write target content >>= (·.remove source) with
      | .ok store => { store }
      | .error e =>
        .failure store 1
          ("mv: cannot move '" ++ source ++ "' to '" ++ target ++ "': " ++ reason e ++ "\n")

/-- Works on paths one after another; the status is 1 if one of them fails. -/
def eachPath (step : Store → Path → Except String Store) (store : Store) (paths : List Path) :
    Effect :=
  paths.foldl (fun effect path =>
    match step effect.store path with
    | .ok store => { effect with store }
    | .error message => { effect with status := 1, errors := effect.errors ++ message })
    { store }

/-- Makes a file that is not there yet. -/
def touch (store : Store) (path : Path) : Except String Store :=
  match store.resolve path with
  | .ok _ => .ok store
  | .error _ => (store.write path (.bytes [])).mapError fun e =>
    "touch: cannot touch '" ++ path ++ "': " ++ reason e ++ "\n"

/-- Removes a file. With `force`, none need be there. -/
def removeFile (force : Bool) (store : Store) (path : Path) : Except String Store :=
  match store.remove path, force with
  | .ok store, _ => .ok store
  | .error .noEntry, true => .ok store
  | .error e, _ => .error ("rm: cannot remove '" ++ path ++ "': " ++ reason e ++ "\n")

/-- Makes a directory; with `above`, also those above it. -/
def makeDirectory (above : Bool) (store : Store) (path : Path) : Except String Store :=
  let fault e := "mkdir: cannot create directory '" ++ path ++ "': " ++ reason e ++ "\n"
  if above then
    match Store.makeDirectories path store with
    | .ok _ store => .ok store
    | .error e _ => .error (fault e)
  else (store.makeDirectory path).mapError fault

/-- Writes files one after another. -/
def concatenate (store : Store) : List Path → Effect
  | [] => { store }
  | path :: paths =>
    let rest := concatenate store paths
    match store.content path with
    | .ok content => { rest with output := content :: rest.output }
    | .error e =>
      let message := "cat: " ++ path ++ ": " ++ reason e ++ "\n"
      { rest with status := 1, errors := message ++ rest.errors }

/-! ### Conditions -/

/-- What stands at a path, if anything does. -/
def nodeAt? (store : Store) (path : Path) : Option Node :=
  match store.resolve path with
  | .ok place => store.node? place
  | .error _ => none

/-- Whether a condition holds, if it is one. -/
def holds? (store : Store) : List String → Option Bool
  | [] => some false
  | [text] => some (text ≠ "")
  | ["!", text] => some (text = "")
  | ["-n", text] => some (text ≠ "")
  | ["-z", text] => some (text = "")
  | ["-e", path] => some (nodeAt? store path).isSome
  | ["-d", path] => some (nodeAt? store path == some .directory)
  | ["-f", path] => some (nodeAt? store path matches some (.file _))
  | [a, "=", b] => some (a = b)
  | [a, "!=", b] => some (a ≠ b)
  | [a, "-eq", b] => do some ((← a.toInt?) = (← b.toInt?))
  | [a, "-ne", b] => do some ((← a.toInt?) ≠ (← b.toInt?))
  | [a, "-lt", b] => do some ((← a.toInt?) < (← b.toInt?))
  | [a, "-le", b] => do some ((← a.toInt?) ≤ (← b.toInt?))
  | [a, "-gt", b] => do some ((← a.toInt?) > (← b.toInt?))
  | [a, "-ge", b] => do some ((← a.toInt?) ≥ (← b.toInt?))
  | "!" :: rest => (holds? store rest).map (!·)
  | _ => none

/-- A command that tells by its status whether a condition holds. -/
def testCondition (store : Store) (args : List String) : Effect :=
  match holds? store args with
  | some true => { store }
  | some false => { store, status := 1 }
  | none => { store, status := 2 }

/-! ### Commands -/

/-- Whether arguments of `kill` end the shell. -/
def killsShell : List String → Bool
  | [process] => process = processNumber
  | [signal, process] => signal ≠ "-0" && process = processNumber
  | ["-s", _, process] => process = processNumber
  | _ => false

/-- The number of an exit status, which is at most 31 bits long. -/
def exitStatus? (text : String) : Option Nat := do
  let n ← Text.number? 10 text.toList
  if text ≠ "" ∧ n < 0x80000000 then some (n % 256) else none

/-- Why no program of a name can be launched. A name with a slash is a path, and what stands there
is no program; the segments `.` and `..` are directories wherever programs are looked up. -/
def launchFault (store : Store) (name : String) : IoFault :=
  if name.contains '/' then
    match store.resolve name with
    | .ok _ => .noPermission
    | .error fault => fault
  else if name = "." || name = ".." then .noPermission
  else if Store.isTooLong name then .nameTooLong
  else .noEntry

/-- What a command with its arguments does after a command that ended with a status. -/
def Context.execute (ctx : Context) (store : Store) (status : Nat) : List String → Effect
  | [] => { store }
  | "echo" :: args => { store, output := [.bytes (echoBytes args)] }
  | "printf" :: format :: args => { store, output := [.bytes (printfBytes format args)] }
  | "true" :: _ | ":" :: _ => { store }
  | "false" :: _ => { store, status := 1 }
  | ["exit"] => { store, ended := some (some status) }
  | "exit" :: n :: _ =>
    match exitStatus? n with
    | some n => { store, ended := some (some n) }
    | none =>
      { store, ended := some (some 2)
        errors := ctx.name ++ ": 1: exit: Illegal number: " ++ n ++ "\n" }
  | "kill" :: args =>
    if killsShell args then { store, ended := some none } else { store, status := 1 }
  | "test" :: args => testCondition store args
  | "[" :: args =>
    if args.getLast? = some "]" then testCondition store args.dropLast
    else .failure store 2 (ctx.name ++ ": 1: [: missing ]\n")
  | ["cp", source, target] => copyFile store source target
  | ["mv", source, target] => moveFile store source target
  | "rm" :: "-f" :: paths => eachPath (removeFile true) store paths
  | "rm" :: paths => eachPath (removeFile false) store paths
  | "touch" :: paths => eachPath touch store paths
  | "mkdir" :: "-p" :: paths => eachPath (makeDirectory true) store paths
  | "mkdir" :: paths => eachPath (makeDirectory false) store paths
  | "cat" :: paths => concatenate store paths
  | name :: _ =>
    match launchFault store name with
    | .noEntry | .notDirectory =>
      .failure store 127 (ctx.name ++ ": 1: " ++ name ++ ": not found\n")
    | e => .failure store 126 (ctx.name ++ ": 1: " ++ name ++ ": " ++ reason e ++ "\n")

end JarRefit.Shell
