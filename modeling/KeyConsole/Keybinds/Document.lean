import KeyConsole.Decimal.IntText
import KeyConsole.Keybinds.File
import KeyConsole.Yaml.Decoding
import KeyConsole.Yaml.Writing

/-!
# Keybinds.Document: keybind files as text

A keybind file is written as YAML.  What has its default value is left out, apart from the version and the
list of bindings.
-/

namespace KeyConsole.Keybinds

open Yaml (Decoder Tree)
open Dispatch (BindingKind)

/-- Why a text is no keybind file. -/
inductive FileFault where
  | unreadable
  | unsupportedVersion (version : Nat)
  deriving DecidableEq, Repr

/-- The fault in words. -/
def FileFault.message : FileFault → String
  | unreadable => "failed to parse keybinds"
  | unsupportedVersion version => "unsupported keybind file version " ++ Decimal.natText version

namespace Entry

/-- Read an entry. -/
def decoder : Decoder Entry :=
  .fields ["function", "key", "mod1", "mod2", "mod3", "type", "canFocus", "canRepeat", "allowSubCombs",
      "priority"] fun field => do
    let function ← Decoder.text (← Decoder.given (field "function"))
    let key ← Decoder.text (← Decoder.given (field "key"))
    let modifier (name : String) := Decoder.optionalText.orElse none (field name)
    let flag (name : String) := Decoder.flag.orElse false (field name)
    return {
      function, key
      mod1 := ← modifier "mod1"
      mod2 := ← modifier "mod2"
      mod3 := ← modifier "mod3"
      kind := ← (Decoder.word BindingKind.ofName?).orElse .state (field "type")
      canFocus := ← flag "canFocus"
      canRepeat := ← flag "canRepeat"
      allowSubCombos := ← flag "allowSubCombs"
      priority := ← (Decoder.integer 32).orElse 0 (field "priority") }

/-- The fields of an entry that are written. -/
def tree (e : Entry) : Tree :=
  let modifier (name : String) (m : Option String) : List (String × Tree) :=
    m.toList.map fun m => (name, .text m)
  let flag (name : String) (on : Bool) : List (String × Tree) :=
    if on then [(name, .word "true")] else []
  .fields ([("function", .text e.function), ("key", .text e.key)]
    ++ modifier "mod1" e.mod1 ++ modifier "mod2" e.mod2 ++ modifier "mod3" e.mod3
    ++ (if e.kind = .state then [] else [("type", .text e.kind.name)])
    ++ flag "canFocus" e.canFocus ++ flag "canRepeat" e.canRepeat
    ++ flag "allowSubCombs" e.allowSubCombos
    ++ (if e.priority = 0 then [] else [("priority", .word (Decimal.intText e.priority))]))

end Entry

namespace KeybindFile

/-- Read a file of any version. -/
def decoder : Decoder KeybindFile :=
  .fields ["version", "binds", "leaveEmpty"] fun field => do
    return {
      version := ← (Decoder.natural (Nat.pow 2 32)).orElse fileVersion (field "version")
      entries := ← (Decoder.list Entry.decoder).orElse [] (field "binds")
      leaveEmpty := ← (Decoder.list Decoder.text).orElse [] (field "leaveEmpty") }

/-- Read a file of the version in use from a source that `parse` takes for a document. -/
def readBy (parse : String → Option Yaml.Document) (source : String) : Except FileFault KeybindFile :=
  match (parse source).bind (Yaml.Document.decode? decoder) with
  | none => .error .unreadable
  | some file => if file.version = fileVersion then .ok file else .error (.unsupportedVersion file.version)

/-- Read a file of the version in use. -/
def read (source : String) : Except FileFault KeybindFile := readBy Yaml.Document.read? source

/-- The fields of a file that are written. -/
def tree (f : KeybindFile) : Tree :=
  .fields ([("version", .word (Decimal.natText f.version)), ("binds", .list (f.entries.map Entry.tree))]
    ++ if f.leaveEmpty.isEmpty then [] else [("leaveEmpty", .list (f.leaveEmpty.map .text))])

/-- The text of a file. -/
def written (f : KeybindFile) : String := f.tree.written

end KeybindFile

end KeyConsole.Keybinds
