import JarRefit.Decimal.Layout
import JarRefit.Document.Unfit

/-!
# TOML values

What a TOML document holds. A table keeps its entries in the order in which they appear.
-/
namespace JarRefit.Toml

/-- A TOML value. A date or time is kept as it is written. -/
inductive Value where
  | string (text : String)
  | integer (value : Int)
  | decimal (value : Float)
  | boolean (value : Bool)
  | moment (text : String)
  | array (items : List Value)
  | table (entries : List (String × Value))
deriving Repr

/-- The entries of a table. -/
abbrev Entries := List (String × Value)

/-- How decimals are shown: always positionally. -/
def decimalLayout : Decimal.Layout where
  positional _ := true
  exponentMark := "e"
  notANumber := "NaN"
  infinity := "inf"

namespace Value

/-- What a value is in the eyes of a reader who asks for something else. A date or time counts as a
table. -/
def found : Value → Document.Found
  | string text => .string text
  | integer value => .integer value
  | decimal value => .decimal (decimalLayout.text value)
  | boolean value => .boolean value
  | moment _ => .map
  | array _ => .sequence
  | table _ => .map

/-- The fault of a value where something else is expected. -/
def unfit (v : Value) (expected : String) : Document.Unfit :=
  .wrongType v.found expected

/-- The text of a string; `expected` says what the text is for. -/
def text (expected : String) : Value → Except Document.Unfit String
  | string text => .ok text
  | v => .error (v.unfit expected)

/-- The value of a boolean. -/
def flag : Value → Except Document.Unfit Bool
  | boolean value => .ok value
  | v => .error (v.unfit "a boolean")

/-- The items of an array, read in order. -/
def items {α : Type} (read : Value → Except Document.Unfit α) :
    Value → Except Document.Unfit (List α)
  | array vs => vs.mapM read
  | v => .error (v.unfit "a sequence")

end Value

end JarRefit.Toml
