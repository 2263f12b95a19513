import KeyConsole.Dispatch.Context
import KeyConsole.Keybinds.File

/-!
# Keybinds.Engine: the functions, contexts and keybinds that are there from the start

The context `common` has the functions that are always of use; `human`, `editor` and `text` inherit them and
add their own.
-/

namespace KeyConsole.Keybinds

open Dispatch (Context Contexts)

/-- The name of the root context. -/
def commonContext : String := "common"

/-- The functions of every context. -/
def commonFunctions : List String := [
  "ShowDebugConsole", "ShowDebugMonitors", "HideUI", "UIClick", "UIRightClick", "CloseModals", "Use"]

/-- The functions of moving about. -/
def humanFunctions : List String := ["MoveUp", "MoveDown", "MoveLeft", "MoveRight", "Walk"]

/-- The functions of building. -/
def editorFunctions : List String := [
  "EditorPlaceObject", "EditorCancelPlace", "EditorGridPlace", "EditorLinePlace",
  "EditorRotateObject"]

/-- The functions of typing. -/
def textFunctions : List String := [
  "TextCursorLeft", "TextCursorRight", "TextCursorWordLeft", "TextCursorWordRight", "TextCursorBegin",
  "TextCursorEnd", "TextCursorSelect", "TextBackspace", "TextDelete", "TextSubmit", "TextNewline",
  "TextSelectAll", "TextCopy", "TextCut", "TextPaste"]

/-- All functions that are there from the start. -/
def engineFunctions : List String :=
  commonFunctions ++ humanFunctions ++ editorFunctions ++ textFunctions

/-- The contexts that are there from the start. -/
def engineContexts : List Context := [
  { name := commonContext, functions := commonFunctions },
  { name := "human", parent := some commonContext, functions := humanFunctions },
  { name := "editor", parent := some commonContext, functions := editorFunctions },
  { name := "text", parent := some commonContext, functions := textFunctions }]

/-- A context tree with the contexts that are there from the start, none of them active. -/
def engineContextTree : Contexts := { contexts := engineContexts }

/-- The shipped keybinds. -/
def shippedEntries : List Entry := [
  { function := "ShowDebugConsole", key := "Tilde", canFocus := true },
  { function := "ShowDebugMonitors", key := "F3", kind := .toggle },
  { function := "HideUI", key := "F4", kind := .toggle },
  { function := "UIClick", key := "MouseLeft", canFocus := true },
  { function := "UIRightClick", key := "MouseRight", canFocus := true },
  { function := "CloseModals", key := "Escape" },
  { function := "Use", key := "MouseLeft" },
  { function := "MoveUp", key := "W" },
  { function := "MoveLeft", key := "A" },
  { function := "MoveDown", key := "S" },
  { function := "MoveRight", key := "D" },
  { function := "Walk", key := "Shift" },
  { function := "EditorPlaceObject", key := "MouseLeft" },
  { function := "EditorCancelPlace", key := "MouseRight" },
  { function := "EditorGridPlace", key := "MouseLeft", mod1 := some "Shift" },
  { function := "EditorLinePlace", key := "MouseLeft", mod1 := some "Control" },
  { function := "EditorRotateObject", key := "MouseMiddle" },
  { function := "TextCursorLeft", key := "Left", canRepeat := true },
  { function := "TextCursorRight", key := "Right", canRepeat := true },
  { function := "TextCursorWordLeft", key := "Left", mod1 := some "Control", canRepeat := true },
  { function := "TextCursorWordRight", key := "Right", mod1 := some "Control", canRepeat := true },
  { function := "TextCursorBegin", key := "Home" },
  { function := "TextCursorEnd", key := "End" },
  { function := "TextCursorSelect", key := "MouseLeft" },
  { function := "TextBackspace", key := "BackSpace", canRepeat := true },
  { function := "TextDelete", key := "Delete", canRepeat := true },
  { function := "TextSubmit", key := "Return" },
  { function := "TextSubmit", key := "NumpadEnter" },
  { function := "TextNewline", key := "Return", mod1 := some "Shift" },
  { function := "TextSelectAll", key := "A", mod1 := some "Control" },
  { function := "TextCopy", key := "C", mod1 := some "Control" },
  { function := "TextCut", key := "X", mod1 := some "Control" },
  { function := "TextPaste", key := "V", mod1 := some "Control" }]

/-- The shipped keybinds as a file. -/
def shippedFile : KeybindFile := { entries := shippedEntries }

end KeyConsole.Keybinds
