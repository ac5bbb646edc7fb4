import JarRefit.Decimal.Layout
import JarRefit.Document.Unfit

/-!
# JSON values

A value as a document holds it and as it is kept. The members of an object keep the order they are
given in; `insertMember` keeps them sorted by name with one value for each name.
-/
namespace JarRefit.Json

/-- A number: a whole one of at most 64 bits, or a binary fraction. -/
inductive Number where
  | integer (value : Int)
  | decimal (value : Float)
deriving BEq, Repr

/-- A JSON value. -/
inductive Value where
  | null
  | boolean (value : Bool)
  | number (value : Number)
  | string (text : String)
  | array (items : List Value)
  | object (members : List (String × Value))
deriving Repr

/-- Members of an object, by name. -/
abbrev Members := List (String × Value)

/-- How decimals are written: positionally from a hundred thousandth up to sixteen digits. -/
def decimalLayout : Decimal.Layout where
  positional power := -5 ≤ power && power ≤ 15
  exponentMark := "e+"
  notANumber := "null"
  infinity := "null"

def Number.text : Number → String
  | integer value => toString value
  | decimal value => decimalLayout.text value

/-- What a number is in the eyes of a reader who asks for something else. -/
def Number.found : Number → Document.Found
  | integer value => .integer value
  | decimal value => .decimal (decimalLayout.text value)

namespace Value

mutual

/-- Whether two values are equal. Decimals are compared as numbers. -/
def same : Value → Value → Bool
  | null, null => true
  | boolean a, boolean b => a == b
  | number a, number b => a == b
  | string a, string b => a == b
  | array a, array b => sameItems a b
  | object a, object b => sameMembers a b
  | _, _ => false

/-- Whether two lists of items are equal. -/
def sameItems : List Value → List Value → Bool
  | [], [] => true
  | a :: as, b :: bs => same a b && sameItems as bs
  | _, _ => false

/-- Whether two lists of members are equal. -/
def sameMembers : List (String × Value) → List (String × Value) → Bool
  | [], [] => true
  | (k, a) :: as, (l, b) :: bs => k == l && same a b && sameMembers as bs
  | _, _ => false

end

instance : BEq Value := ⟨same⟩

/-- The members with a value put in its place by name. A value of that name is replaced. -/
def insertMember (name : String) (value : Value) : Members → Members
  | [] => [(name, value)]
  | (other, old) :: rest =>
    if name < other then (name, value) :: (other, old) :: rest
    else if name = other then (name, value) :: rest
    else (other, old) :: insertMember name value rest

end Value

end JarRefit.Json
