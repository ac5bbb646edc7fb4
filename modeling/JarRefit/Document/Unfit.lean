import JarRefit.Text.Quoted

/-!
# Documents that do not fit

Why the value of a document, however it is written, is not of the form that its reader asks for.
-/
namespace JarRefit.Document

/-- What stands at a place of a document. -/
inductive Found where
  | null
  | boolean (value : Bool)
  | integer (value : Int)
  /-- A number with a point, as its format writes it. -/
  | decimal (text : String)
  | string (text : String)
  | sequence
  | map
deriving DecidableEq, Repr

def Found.description : Found → String
  | null => "null"
  | boolean value => "boolean `" ++ (if value then "true" else "false") ++ "`"
  | integer value => "integer `" ++ toString value ++ "`"
  | decimal text => "floating point `" ++ text ++ "`"
  | string text => "string " ++ Text.quote text
  | sequence => "sequence"
  | map => "map"

/-- Why a value does not fit. -/
inductive Unfit where
  | wrongType (found : Found) (expected : String)
  | missingField (name : String)
  | duplicateField (name : String)
  /-- A sequence has too few items, or a map too many. -/
  | wrongLength (length : Nat) (expected : String)
  /-- A text that stands for a date or time is none. -/
  | noMoment
deriving DecidableEq, Repr

def Unfit.message : Unfit → String
  | wrongType found expected => "invalid type: " ++ found.description ++ ", expected " ++ expected
  | missingField name => "missing field `" ++ name ++ "`"
  | duplicateField name => "duplicate field `" ++ name ++ "`"
  | wrongLength length expected =>
    "invalid length " ++ toString length ++ ", expected " ++ expected
  | noMoment => "failed to parse datetime"

end JarRefit.Document
