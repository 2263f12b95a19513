import KeyConsole.Keybinds.Document
import KeyConsole.Keybinds.Loading

/-!
# Keybinds.Settings: the user's settings

Settings are read from YAML.  A source that does not fit counts as none at all.
-/

namespace KeyConsole.Keybinds

open Dispatch (Dispatcher ContextFault)
open Yaml (Decoder Tree)

/-- The user's settings. -/
structure Settings where
  /-- The context that is active at the start. -/
  defaultContext : String := commonContext
  /-- A line end does not end a command. -/
  multiline : Bool := true
  /-- The number of completions that are shown. -/
  maxCompletions : Nat := 20
  /-- The place of the user's keybind file. -/
  keybinds : Option String := none
  deriving DecidableEq, Inhabited, Repr

namespace Settings

/-- Read settings. -/
def decoder : Decoder Settings :=
  .fields ["default_context", "multiline_expressions", "max_completions", "keybinds"] fun field => do
    return {
      defaultContext := ← Decoder.text.orElse commonContext (field "default_context")
      multiline := ← Decoder.flag.orElse true (field "multiline_expressions")
      maxCompletions := ← (Decoder.natural (Nat.pow 2 64)).orElse 20 (field "max_completions")
      keybinds := ← Decoder.optionalText.orElse none (field "keybinds") }

/-- The settings in a source. -/
def read (source : String) : Settings := (Yaml.decode? decoder source).getD {}

/-- The settings of a file, which may be missing. -/
def ofFile (source : Option String) : Settings := source.elim {} read

/-- The fields that are written. -/
def tree (s : Settings) : Tree :=
  .fields ([("default_context", .text s.defaultContext),
      ("multiline_expressions", .word (if s.multiline then "true" else "false")),
      ("max_completions", .word (Decimal.natText s.maxCompletions))]
    ++ s.keybinds.toList.map fun path => ("keybinds", .text path))

/-- The text of settings. -/
def written (s : Settings) : String := s.tree.written

/-- A dispatcher with the keybinds of a file, if it is there and can be read, and the shipped ones, and with
the default context active. -/
def dispatcher (s : Settings) (keybinds : Option String) : Except ContextFault Dispatcher :=
  let user := keybinds.bind fun source => (KeybindFile.read source).toOption
  (loadKeybinds user engineDispatcher).setActiveContext s.defaultContext

/-- The fault of a default context in words. -/
def contextMessage (s : Settings) (f : ContextFault) : String :=
  "Bad default_context '" ++ s.defaultContext ++ "': " ++ f.message

end Settings

end KeyConsole.Keybinds
