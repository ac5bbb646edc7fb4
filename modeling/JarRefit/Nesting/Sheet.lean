import JarRefit.Access.Flags
import JarRefit.Json.Reading
import JarRefit.Text.Digit

/-!
# Nesting sheets

For every class, the records of nested classes that are to be written into it. A sheet is a JSON
object: classes by name in the order of the text, and in each the entries of its records. Members of
a record or an entry that mean nothing here are kept, sorted by name.
-/
namespace JarRefit.Nesting

open Json (Fault Members Number Reading Value)

/-- The record of one nested class. Its access flags are written in base sixteen. -/
structure Entry where
  innerClass : String
  outerClass : Option String := none
  innerName : Option String := none
  access : Option String := none
  extra : Members := []
deriving Repr, BEq

/-- What a sheet says about one class. -/
structure ClassRecord where
  entries : Option (List Entry) := none
  extra : Members := []
deriving Repr, BEq

/-- Records by class name, each name once. -/
structure Sheet where
  classes : List (String × ClassRecord) := []
deriving Repr, BEq

/-! ### Access flags -/

/-- The number that digits in base sixteen stand for. A plus sign may stand in front; anything else
that is no digit, and a number of more than 16 bits, stands for nothing. -/
def hexValue? (text : List Char) : Option UInt16 :=
  let digits := match text with
    | '+' :: digits => digits
    | digits => digits
  if digits.isEmpty then none
  else
    match Text.number? 16 digits with
    | some n => if n < 0x10000 then some n.toUInt16 else none
    | none => none

namespace Entry

/-- The access flags of an entry. None are set if the text is absent or cannot be read. -/
def flags (e : Entry) : Access.Flags :=
  ⟨((e.access.bind fun text => hexValue? text.toList).getD 0)⟩

/-- The entry with other access flags; if none is set, the text is left out. -/
def withFlags (e : Entry) (flags : Access.Flags) : Entry :=
  { e with access := if flags.bits = 0 then none else some flags.toHex }

end Entry

/-! ### Looking up -/

namespace Sheet

def size (s : Sheet) : Nat :=
  s.classes.length

def record? (s : Sheet) (cls : String) : Option ClassRecord :=
  s.classes.lookup cls

/-- The first entry for a nested class in the record of a class. -/
def entry? (s : Sheet) (owner inner : String) : Option Entry := do
  let entries ← (← s.record? owner).entries
  entries.find? (·.innerClass = inner)

/-- The sheet with a record put in the place of the one for the same class, or at the end. -/
def insert (s : Sheet) (cls : String) (record : ClassRecord) : Sheet :=
  if s.classes.any (·.1 = cls) then
    ⟨s.classes.map fun (name, old) => (name, if name = cls then record else old)⟩
  else ⟨s.classes ++ [(cls, record)]⟩

end Sheet

/-! ### JSON -/

/-- The name of the member that holds the entries of a record. -/
def entriesName : String := "innerClasses"

def innerClassName : String := "inner_class"
def outerClassName : String := "outer_class"
def innerNameName : String := "inner_name"
def accessName : String := "access"

/-- Reads a member that may stand only once. -/
def readOnce {α : Type} (name : String) (seen : Option α) (read : Reading → Except Fault α)
    (reading : Reading) : Except Fault (Option α) :=
  match seen with
  | some _ => .error (.unfit (.duplicateField name))
  | none => some <$> read reading

/-- The members of an entry that have been read so far. -/
structure EntryDraft where
  innerClass : Option String := none
  outerClass : Option (Option String) := none
  innerName : Option (Option String) := none
  access : Option (Option String) := none
  extra : Members := []

/-- Reads one more member of an entry. -/
def EntryDraft.step (d : EntryDraft) (name : String) (r : Reading) : Except Fault EntryDraft := do
  if name = innerClassName then
    return { d with innerClass := ← readOnce name d.innerClass Reading.text r }
  else if name = outerClassName then
    return { d with outerClass := ← readOnce name d.outerClass (Reading.optional Reading.text) r }
  else if name = innerNameName then
    return { d with innerName := ← readOnce name d.innerName (Reading.optional Reading.text) r }
  else if name = accessName then
    return { d with access := ← readOnce name d.access (Reading.optional Reading.text) r }
  else
    return { d with extra := Value.insertMember name (← r.value) d.extra }

/-- Reads an entry. -/
def Entry.ofReading (r : Reading) : Except Fault Entry := do
  let d ← r.walk "struct InnerClassEntry" EntryDraft.step {}
  match d.innerClass with
  | none => throw (.unfit (.missingField innerClassName))
  | some innerClass =>
    return { innerClass, outerClass := d.outerClass.join, innerName := d.innerName.join,
             access := d.access.join, extra := d.extra }

/-- The members of a record that have been read so far. -/
structure RecordDraft where
  entries : Option (Option (List Entry)) := none
  extra : Members := []

/-- Reads one more member of a record. -/
def RecordDraft.step (d : RecordDraft) (name : String) (r : Reading) :
    Except Fault RecordDraft := do
  if name = entriesName then
    let read := Reading.optional (Reading.items Entry.ofReading)
    return { d with entries := ← readOnce name d.entries read r }
  else
    return { d with extra := Value.insertMember name (← r.value) d.extra }

/-- Reads a record. -/
def ClassRecord.ofReading (r : Reading) : Except Fault ClassRecord := do
  let d ← r.walk "struct ClassRecord" RecordDraft.step {}
  return { entries := d.entries.join, extra := d.extra }

/-- Reads a sheet. Of several records for one class the last one counts, in the place of the
first. -/
def Sheet.ofReading (r : Reading) : Except Fault Sheet :=
  r.walk "a map" (fun s name r => return s.insert name (← ClassRecord.ofReading r)) {}

/-- The member for a text that may be absent. -/
def textMember (name : String) (text : Option String) : Members :=
  text.toList.map fun text => (name, .string text)

/-- The members of an entry: its own ones first, and the others after them. -/
def Entry.toValue (e : Entry) : Value :=
  .object ((innerClassName, .string e.innerClass) ::
    (textMember outerClassName e.outerClass ++ textMember innerNameName e.innerName ++
      textMember accessName e.access ++ e.extra))

def ClassRecord.toValue (r : ClassRecord) : Value :=
  .object (r.entries.toList.map (fun es => (entriesName, .array (es.map Entry.toValue))) ++ r.extra)

def Sheet.toValue (s : Sheet) : Value :=
  .object (s.classes.map fun (name, record) => (name, record.toValue))

end JarRefit.Nesting
