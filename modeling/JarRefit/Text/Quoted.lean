import JarRefit.Text.Combining
import JarRefit.Text.Undrawn

/-!
# Quoted text

A text as messages show it: between quotation marks, with an escape for every character that a
reader could not see or could mistake for the end.
-/
namespace JarRefit.Text

/-- Whether a character shows as itself, wherever it stands. -/
def isVisible (c : Char) : Bool :=
  !isCombining c && !isUndrawn c

/-- The characters that a character is shown as. -/
def quoteChar (c : Char) : List Char :=
  if c = '\x00' then ['\\', '0']
  else if c = '\t' then ['\\', 't']
  else if c = '\r' then ['\\', 'r']
  else if c = '\n' then ['\\', 'n']
  else if c = '"' || c = '\\' then ['\\', c]
  else if isVisible c then [c]
  else '\\' :: 'u' :: '\x7b' :: (Nat.toDigits 16 c.toNat ++ ['\x7d'])

/-- The text between quotation marks. -/
def quote (s : String) : String :=
  String.ofList ('"' :: (s.toList.flatMap quoteChar ++ ['"']))

end JarRefit.Text
