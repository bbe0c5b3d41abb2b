import Confine.Text.Numeral
import Confine.Text.Printable

/-!
Quoted text as diagnostics show it: between double quotes, with a backslash escape for each
character that would not show by itself.
-/

namespace Confine.Text

/-- The escape of a character by its number, in braces. -/
def codePointEscape (c : Char) : List Char :=
  ['\\', 'u', '\x7b'] ++ hexDigits c.toNat ++ ['\x7d']

/-- How one character is written between the quotes. -/
def quoteChar (c : Char) : List Char :=
  if c = '\x00' then ['\\', '0']
  else if c = '\t' then ['\\', 't']
  else if c = '\r' then ['\\', 'r']
  else if c = '\n' then ['\\', 'n']
  else if c = '"' then ['\\', '"']
  else if c = '\\' then ['\\', '\\']
  else if isPlain c then [c]
  else codePointEscape c

/-- A text in double quotes, for diagnostics. -/
def quoted (s : String) : String :=
  String.ofList ('"' :: (s.toList.flatMap quoteChar ++ ['"']))

end Confine.Text
