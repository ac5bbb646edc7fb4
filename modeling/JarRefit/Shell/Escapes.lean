import JarRefit.Text.Digit
import JarRefit.Text.Utf8

/-!
# Escapes

The bytes that texts with backslashes stand for when a shell writes them.
-/
namespace JarRefit.Shell

/-- The octal digits at the front of a text, so many at most. -/
def takeOctal (count : Nat) (cs : List Char) : List Char :=
  (cs.take count).takeWhile fun c => (Text.digit? 8 c).isSome

/-- The byte that a letter after a backslash stands for. -/
def letterByte? : Char → Option UInt8
  | 'a' => some 7
  | 'b' => some 8
  | 'f' => some 12
  | 'n' => some 10
  | 'r' => some 13
  | 't' => some 9
  | 'v' => some 11
  | '\\' => some 92
  | _ => none

/-- The byte of octal digits. -/
def octalByte (digits : List Char) : UInt8 :=
  ((Text.number? 8 digits).getD 0).toUInt8

/-- The bytes of a text with escapes, and whether the text ends early because an escape says so.
With `leadingZero` the number of a byte has a zero in front. The fuel bounds the number of
characters. -/
def unescape (leadingZero : Bool) : Nat → List Char → List UInt8 × Bool
  | 0, _ => ([], false)
  | fuel + 1, cs =>
    let cons (b : List UInt8) (rest : List Char) : List UInt8 × Bool :=
      let (bytes, ended) := unescape leadingZero fuel rest
      (b ++ bytes, ended)
    match cs with
    | [] => ([], false)
    | '\\' :: c :: rest =>
      if c = 'c' ∧ leadingZero then ([], true)
      else if c = '0' ∧ leadingZero then
        let digits := takeOctal 3 rest
        cons [octalByte digits] (rest.drop digits.length)
      else if (Text.digit? 8 c).isSome ∧ ¬ leadingZero then
        let digits := takeOctal 3 (c :: rest)
        cons [octalByte digits] ((c :: rest).drop digits.length)
      else
        match letterByte? c with
        | some b => cons [b] rest
        | none => cons (Utf8.encode (String.ofList ['\\', c])) rest
    | c :: rest => cons (Utf8.encode (String.singleton c)) rest

/-- What `echo` writes. -/
def echoBytes (args : List String) : List UInt8 :=
  let (newline, args) := match args with
    | "-n" :: args => (false, args)
    | args => (true, args)
  let text := (" ".intercalate args).toList
  let (bytes, ended) := unescape true (text.length + 1) text
  if newline && !ended then bytes ++ [10] else bytes

/-- One pass over the format of `printf`: the bytes, and the arguments that are left. -/
def formatBytes : Nat → List Char → List String → List UInt8 × List String
  | 0, _, args => ([], args)
  | fuel + 1, cs, args =>
    match cs with
    | [] => ([], args)
    | '%' :: '%' :: rest =>
      let (bytes, args) := formatBytes fuel rest args
      (37 :: bytes, args)
    | '%' :: c :: rest =>
      if c = 's' ∨ c = 'd' then
        let arg := args.headD (if c = 'd' then "0" else "")
        let (bytes, args) := formatBytes fuel rest args.tail
        (Utf8.encode arg ++ bytes, args)
      else
        let (bytes, args) := formatBytes fuel rest args
        (Utf8.encode (String.ofList ['%', c]) ++ bytes, args)
    | '\\' :: c :: rest =>
      let size := if (Text.digit? 8 c).isSome then (takeOctal 3 (c :: rest)).length else 1
      let (bytes, args) := formatBytes fuel ((c :: rest).drop size) args
      ((unescape false 5 ('\\' :: (c :: rest).take size)).1 ++ bytes, args)
    | c :: rest =>
      let (bytes, args) := formatBytes fuel rest args
      (Utf8.encode (String.singleton c) ++ bytes, args)

/-- What `printf` writes: the format is used again as long as it takes arguments that are left. -/
def printfBytes (format : String) (args : List String) : List UInt8 :=
  go (args.length + 1) args
where
  go : Nat → List String → List UInt8
    | 0, _ => []
    | passes + 1, args =>
      let (bytes, left) := formatBytes (format.length + 1) format.toList args
      if left.isEmpty || left.length = args.length then bytes else bytes ++ go passes left

end JarRefit.Shell
