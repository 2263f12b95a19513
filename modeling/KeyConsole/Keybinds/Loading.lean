import KeyConsole.Dispatch.Dispatcher
import KeyConsole.Keybinds.Engine

/-!
# Keybinds.Loading: keybind files and dispatchers

The user's file is loaded before the shipped one.  The shipped bindings of a function that the user's file
mentions are remembered for resets but not put into the table.
-/

namespace KeyConsole.Keybinds

open Dispatch

/-- A dispatcher with the functions and contexts that are there from the start and `common` active.  It has
no bindings. -/
def engineDispatcher : Dispatcher where
  contexts := { engineContextTree with active := some commonContext }
  known := engineFunctions.eraseDups

/-- Load one entry; says whether a binding was added.  An entry is passed over if its function is not known,
unless it is a command, or if it names no key. -/
def loadEntry (byUser : Bool) (d : Dispatcher) (e : Entry) : Bool × Dispatcher :=
  if e.kind ≠ .command && !d.knows e.function then (false, d)
  else
    match e.toRegistration with
    | .error _ => (false, d)
    | .ok r =>
      let d := if byUser then d else { d with shipped := d.shipped ++ [r] }
      if !byUser && d.isModified r.function then (false, d)
      else
        match d.insertBinding r byUser with
        | none => (false, d)
        | some (_, d) => (true, d)

/-- Load some entries; counts the bindings added. -/
def loadEntries (byUser : Bool) (entries : List Entry) (d : Dispatcher) : Nat × Dispatcher :=
  entries.foldl (fun (count, d) e =>
    let (added, d) := loadEntry byUser d e
    (if added then count + 1 else count, d)) (0, d)

/-- Load a file; counts the bindings added.  The functions that a user's file leaves empty count as
modified. -/
def loadFile (file : KeybindFile) (byUser : Bool) (d : Dispatcher) : Nat × Dispatcher :=
  let (count, d) := loadEntries byUser file.entries d
  (count, if byUser then { d with modified := file.leaveEmpty.foldl withName d.modified } else d)

/-- Load the user's file, if there is one, and the shipped one. -/
def loadKeybinds (user : Option KeybindFile) (d : Dispatcher) : Dispatcher :=
  let d := user.elim d fun file => (loadFile file true d).2
  (loadFile shippedFile false d).2

/-- The bindings that the user has changed, as a file: functions by name, those without binding as left
empty. -/
def userFile (d : Dispatcher) : KeybindFile :=
  let functions := Ordered.sortedNames d.modified
  { entries := functions.flatMap fun f =>
      (d.table.bindingsFor f).map fun b => .ofRegistration b.toRegistration
    leaveEmpty := functions.filter fun f => (d.table.bindingsFor f).isEmpty }

end KeyConsole.Keybinds
