import KeyConsole.Keyboard.Key
import KeyConsole.Text.Blank

/-!
# Keyboard.KeyName: keys by name

A key is found by its name in any letter case, by one of its other names, or as a digit of the number row.
Blanks around the name do not count.
-/

namespace KeyConsole.Keyboard.Key

/-- The small letter of a character.  Beside the capital letters of ASCII the Kelvin sign has one there. -/
def smallLetter (c : Char) : Char := if c = '\u212a' then 'k' else c.toLower

/-- Names in use beside the proper ones, in small letters. -/
def otherNames : List (String × Key) := [
  ("ctrl", control), ("control", control),
  ("option", alt), ("opt", alt),
  ("super", lSystem), ("win", lSystem), ("meta", lSystem), ("cmd", lSystem), ("system", lSystem),
  ("esc", escape), ("enter", enter), ("backspace", backSpace), ("back", backSpace),
  ("del", delete), ("ins", insert), ("pgup", pageUp), ("pgdn", pageDown), ("pgdown", pageDown),
  ("grave", tilde), ("`", tilde), ("~", tilde),
  (";", semiColon), ("semicolon", semiColon), (",", comma), (".", period), ("/", slash),
  ("\\", backSlash), ("backslash", backSlash), ("=", equal), ("-", minus),
  ("[", lBracket), ("]", rBracket), ("'", apostrophe)]

/-- The key of the number row for a digit. -/
def ofDigit? (s : String) : Option Key :=
  match s.toList with
  | [c] => if c.isDigit then some (ofCode (num0.code + (c.toNat - '0'.toNat))) else none
  | _ => none

/-- The key whose proper name is this in small letters. -/
def ofProperName? (small : String) : Option Key :=
  all.find? fun k => k.name.toList.map Char.toLower = small.toList

/-- The key with a name. -/
def ofName? (name : String) : Option Key :=
  let small := String.ofList ((Text.trim name).toList.map smallLetter)
  (otherNames.lookup small <|> ofDigit? small) <|> ofProperName? small

/-- The message for a text that names no key. -/
def unknownNameMessage (name : String) : String := "unknown key name '" ++ name ++ "'"

end KeyConsole.Keyboard.Key
