import JarRefit.Json.Value

/-!
# Readings

A JSON text as far as it can be read. A faulty text has a reading too: it holds everything that
stands before the first fault, and the fault in its place. Whoever walks a reading in order meets
the faults of the text and those of its values in the order of the text.
-/
namespace JarRefit.Json

/-- Why a text is not read. -/
inductive Fault where
  /-- The text ends inside a value. -/
  | ended
  /-- The text does not follow the grammar. -/
  | malformed
  /-- The text holds a value of another form than the one asked for. -/
  | unfit (reason : Document.Unfit)
deriving DecidableEq, Repr

/-- A value with the order and the repetitions of its text, up to the first fault. -/
inductive Reading where
  | null
  | boolean (value : Bool)
  | number (value : Number)
  | string (text : String)
  | array (items : List Reading) (stop : Option Fault)
  | object (members : List (String × Reading)) (stop : Option Fault)
  | fault (fault : Fault)
deriving Repr

namespace Reading

/-- The fault of a reading where something else is expected. -/
def unfit (reading : Reading) (expected : String) : Fault :=
  let wrong := fun found => Fault.unfit (.wrongType found expected)
  match reading with
  | null => wrong .null
  | boolean value => wrong (.boolean value)
  | number value => wrong value.found
  | string text => wrong (.string text)
  | array _ _ => wrong .sequence
  | object _ _ => wrong .map
  | fault f => f

/-- Ends a walk with the fault where a reading stops. -/
def stopped {α : Type} (a : α) : Option Fault → Except Fault α
  | none => .ok a
  | some f => .error f

/-- The text of a string. -/
def text : Reading → Except Fault String
  | string text => .ok text
  | reading => .error (reading.unfit "a string")

/-- Nothing for null, and otherwise what `read` makes of the reading. -/
def optional {α : Type} (read : Reading → Except Fault α) : Reading → Except Fault (Option α)
  | null => .ok none
  | reading => some <$> read reading

/-- The items of an array, read in order. -/
def items {α : Type} (read : Reading → Except Fault α) : Reading → Except Fault (List α)
  | array items stop => do stopped (← items.mapM read) stop
  | reading => .error (reading.unfit "a sequence")

/-- Walks the members of an object in order. -/
def walk {σ : Type} (expected : String) (step : σ → String → Reading → Except Fault σ) (start : σ) :
    Reading → Except Fault σ
  | object members stop => do
    stopped (← members.foldlM (fun state member => step state member.1 member.2) start) stop
  | reading => .error (reading.unfit expected)

mutual

/-- The value of a reading without faults. Objects are sorted by name, and the last of several
members of one name counts. -/
def value : Reading → Except Fault Value
  | null => .ok .null
  | boolean b => .ok (.boolean b)
  | number n => .ok (.number n)
  | string s => .ok (.string s)
  | array rs stop => do stopped (.array (← values rs)) stop
  | object ms stop => do stopped (.object (← members [] ms)) stop
  | fault f => .error f

/-- The values of items. -/
def values : List Reading → Except Fault (List Value)
  | [] => .ok []
  | r :: rs => do return (← value r) :: (← values rs)

/-- The values of members, put among sorted ones. -/
def members (sorted : Members) : List (String × Reading) → Except Fault Members
  | [] => .ok sorted
  | (name, r) :: rs => do members (Value.insertMember name (← value r) sorted) rs

end

end Reading

mutual

/-- The reading of a value, which has no fault. -/
def Value.reading : Value → Reading
  | .null => .null
  | .boolean b => .boolean b
  | .number n => .number n
  | .string s => .string s
  | .array vs => .array (Value.itemReadings vs) none
  | .object ms => .object (Value.memberReadings ms) none

/-- The readings of items. -/
def Value.itemReadings : List Value → List Reading
  | [] => []
  | v :: vs => v.reading :: Value.itemReadings vs

/-- The readings of members. -/
def Value.memberReadings : List (String × Value) → List (String × Reading)
  | [] => []
  | (name, v) :: ms => (name, v.reading) :: Value.memberReadings ms

end

end JarRefit.Json
