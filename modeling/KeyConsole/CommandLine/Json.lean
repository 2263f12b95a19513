import KeyConsole.Console.Completion

/-!
# CommandLine.Json: completions as JSON

Every item is on a line of its own, indented by two spaces for each level.
-/

namespace KeyConsole.CommandLine.Json

/-- A number below 256 in two hexadecimal digits. -/
def hexPair (n : Nat) : List Char := [Nat.digitChar (n / 16), Nat.digitChar (n % 16)]

/-- A character between quotes. -/
def escape (c : Char) : List Char :=
  if c = '"' then ['\\', '"']
  else if c = '\\' then ['\\', '\\']
  else if c = '\n' then ['\\', 'n']
  else if c = '\r' then ['\\', 'r']
  else if c = '\t' then ['\\', 't']
  else if c = '\x08' then ['\\', 'b']
  else if c = '\x0c' then ['\\', 'f']
  else if c.toNat < 0x20 then ['\\', 'u', '0', '0'] ++ hexPair c.toNat
  else [c]

/-- A text in quotes. -/
def quoted (s : String) : String := String.ofList ('"' :: s.toList.flatMap escape ++ ['"'])

/-- Spaces for a level. -/
def pad (level : Nat) : String := String.ofList (List.replicate (2 * level) ' ')

/-- Items on lines of their own between two brackets. -/
def block (level : Nat) (opening closing : String) (items : List String) : String :=
  if items.isEmpty then opening ++ closing
  else
    opening ++ "\n" ++ ",\n".intercalate (items.map (pad (level + 1) ++ ·)) ++ "\n" ++ pad level ++ closing

/-- A field. -/
def field (name value : String) : String := quoted name ++ ": " ++ value

/-- A text to go on with; the description is left out if there is none. -/
def choice (level : Nat) (c : Console.Choice) : String :=
  block level "\x7b" "\x7d" (field "value" (quoted c.text)
    :: c.description.toList.map fun d => field "description" (quoted d))

/-- What can be typed, and a hint of what is expected. -/
def completion (choices : List Console.Choice) (hint : Option String) : String :=
  block 0 "\x7b" "\x7d" [
    field "options" (block 1 "[" "]" (choices.map (choice 2))),
    field "hint" (hint.elim "null" quoted)]

end KeyConsole.CommandLine.Json
