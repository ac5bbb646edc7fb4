import JarRefit.Toml.Scan
import JarRefit.Toml.Value

/-!
# Dates and times

Dates and times as a document writes them, and as a table with the key `momentKey` gives them by
their text.
-/
namespace JarRefit.Toml

/-- Reads a number of so many digits that lies between two bounds. -/
def readFixed (digits low high : Nat) (cs : List Char) : Option (Nat × List Char) := do
  let front := cs.take digits
  let n ← Text.number? 10 front
  if front.length = digits ∧ low ≤ n ∧ n ≤ high then some (n, cs.drop digits) else none

/-- Reads one character. -/
def readMark (mark : Char) : List Char → Option (List Char)
  | c :: rest => if c = mark then some rest else none
  | [] => none

def isLeapYear (year : Nat) : Bool :=
  year % 4 == 0 && (year % 100 != 0 || year % 400 == 0)

def daysInMonth (year month : Nat) : Nat :=
  if month = 2 then (if isLeapYear year then 29 else 28)
  else if month ∈ [4, 6, 9, 11] then 30 else 31

/-- The text after a date. -/
def skipDate (cs : List Char) : Option (List Char) := do
  let (year, rest) ← readFixed 4 0 9999 cs
  let (month, rest) ← readFixed 2 1 12 (← readMark '-' rest)
  let (_, rest) ← readFixed 2 1 (daysInMonth year month) (← readMark '-' rest)
  some rest

/-- The text after a fraction of a second, if there is one. -/
def skipFraction : List Char → Option (List Char)
  | '.' :: rest =>
    if (rest.takeWhile Char.isDigit).isEmpty then none else some (rest.dropWhile Char.isDigit)
  | cs => some cs

/-- The text after a time of day, given its latest hour. A minute may have a leap second. -/
def skipTime (latestHour : Nat) (cs : List Char) : Option (List Char) := do
  let (_, rest) ← readFixed 2 0 latestHour cs
  let (_, rest) ← readFixed 2 0 59 (← readMark ':' rest)
  let (_, rest) ← readFixed 2 0 60 (← readMark ':' rest)
  skipFraction rest

/-- The text after an offset from universal time, if there is one. -/
def skipOffset : List Char → Option (List Char)
  | 'Z' :: rest | 'z' :: rest => some rest
  | '+' :: rest | '-' :: rest => do
    let (_, rest) ← readFixed 2 0 23 rest
    let (_, rest) ← readFixed 2 0 59 (← readMark ':' rest)
    some rest
  | cs => some cs

/-- Whether a text begins like a time of day, whose hour a colon follows. -/
def startsTime (cs : List Char) : Bool :=
  (readFixed 2 0 23 cs).any fun (_, rest) => (readMark ':' rest).isSome

/-- Whether a text begins like a date, whose year a hyphen follows. -/
def startsDate (cs : List Char) : Bool :=
  (readFixed 4 0 9999 cs).any fun (_, rest) => (readMark '-' rest).isSome

/-- The text after a date, and after the time of day and the offset that may follow it. -/
def skipMoment (cs : List Char) : Option (List Char) :=
  if startsDate cs then do
    let rest ← skipDate cs
    match rest with
    | c :: time =>
      if (c = 'T' ∨ c = 't' ∨ c = ' ') ∧ startsTime time then skipOffset (← skipTime 23 time)
      else some rest
    | [] => some []
  else skipTime 23 cs

/-- Reads a date, a time of day or both. -/
def readMoment (cs : List Char) : Option (Value × List Char) := do
  let rest ← skipMoment cs
  some (.moment (String.ofList (cs.take (cs.length - rest.length))), rest)

/-! ### Dates and times by their text -/

/-- The key of a table that stands for a date or time. -/
def momentKey : String := "$__toml_private_datetime"

/-- The text after an offset of at most a day, if there is one. -/
def skipDayOffset : List Char → Option (List Char)
  | 'Z' :: rest | 'z' :: rest => some rest
  | '+' :: rest | '-' :: rest => do
    let (hours, rest) ← readFixed 2 0 99 rest
    let (minutes, rest) ← readFixed 2 0 99 (← readMark ':' rest)
    if hours * 60 + minutes ≤ 24 * 60 then some rest else none
  | cs => some cs

/-- Whether a text is a date, a time of day, or both with an offset or without one. A day may have
an hour 24 here. -/
def isMoment (text : String) : Bool :=
  skipTime 24 text.toList == some [] ||
    match skipDate text.toList with
    | some [] => true
    | some (c :: time) =>
      (c == 'T' || c == 't' || c == ' ') && (skipTime 24 time).bind skipDayOffset == some []
    | none => false

/-- Checks the value of the first key of a table that stands for a date or time, of which there are
`more` others: the value is its text, and there are none. -/
def checkMoment (v : Value) (more : Nat) : Except Document.Unfit Unit := do
  if !isMoment (← v.text "string containing a datetime") then throw .noMoment
  if more ≠ 0 then throw (.wrongLength (more + 1) "1 element in map")

mutual

/-- Checks the tables in a value that stand for dates or times: those with `momentKey` in front. -/
def Value.checkMoments : Value → Except Document.Unfit Unit
  | .array items => checkItems items
  | .table [] => .ok ()
  | .table ((key, v) :: rest) =>
    if key = momentKey then checkMoment v rest.length
    else do
      v.checkMoments
      checkEntries rest
  | _ => .ok ()

/-- Checks the tables in the items of an array. -/
def checkItems : List Value → Except Document.Unfit Unit
  | [] => .ok ()
  | v :: rest => do
    v.checkMoments
    checkItems rest

/-- Checks the tables in the values of entries. -/
def checkEntries : Entries → Except Document.Unfit Unit
  | [] => .ok ()
  | (_, v) :: rest => do
    v.checkMoments
    checkEntries rest

end

end JarRefit.Toml
