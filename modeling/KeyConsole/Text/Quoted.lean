import KeyConsole.Text.Hidden

/-!
# Text.Quoted: texts in double quotes

A quoted text is written between double quotes.  The quote, the backslash, tab, newline, carriage
return and the null character have a two-character escape, other hidden characters their code point in
hexadecimal digits, and all else is written as it is.
-/

namespace KeyConsole.Text

/-- How one character stands between double quotes. -/
def escape (c : Char) : List Char :=
  if c = '"' then ['\\', '"']
  else if c = '\\' then ['\\', '\\']
  else if c = '\n' then ['\\', 'n']
  else if c = '\t' then ['\\', 't']
  else if c = '\r' then ['\\', 'r']
  else if c = '\x00' then ['\\', '0']
  else if isHidden c then ['\\', 'u', '{'] ++ Nat.toDigits 16 c.toNat ++ ['}']
  else [c]

/-- The text in double quotes. -/
def quoted (s : String) : String :=
  String.ofList ('"' :: s.toList.flatMap escape ++ ['"'])

end KeyConsole.Text
