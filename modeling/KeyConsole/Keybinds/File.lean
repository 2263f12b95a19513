import KeyConsole.Dispatch.Binding
import KeyConsole.Keyboard.KeyName

/-!
# Keybinds.File: what a keybind file says

A keybind file lists bindings, with their keys by name, and the functions that are to have none.
-/

namespace KeyConsole.Keybinds

open Dispatch (BindingKind Registration)
open Keyboard (Key)

/-- The version of the files in use. -/
def fileVersion : Nat := 1

/-- One binding of a keybind file. -/
structure Entry where
  function : String
  key : String
  mod1 : Option String := none
  mod2 : Option String := none
  mod3 : Option String := none
  kind : BindingKind := .state
  canFocus : Bool := false
  canRepeat : Bool := false
  allowSubCombos : Bool := false
  priority : Int := 0
  deriving DecidableEq, Inhabited, Repr

/-- A key name of an entry that names no key. -/
structure KeyFault where
  function : String
  keyName : String
  deriving DecidableEq, Repr

/-- The fault in words. -/
def KeyFault.message (f : KeyFault) : String :=
  "binding for '" ++ f.function ++ "': " ++ Key.unknownNameMessage f.keyName

namespace Entry

/-- The key with a name of this entry. -/
def keyNamed (e : Entry) (name : String) : Except KeyFault Key :=
  match Key.ofName? name with
  | some k => .ok k
  | none => .error ⟨e.function, name⟩

/-- The modifier with a name of this entry, unknown if there is none. -/
def modifierNamed (e : Entry) : Option String → Except KeyFault Key
  | none => .ok .unknown
  | some name => e.keyNamed name

/-- The registration that an entry stands for; the first name that names no key is the fault. -/
def toRegistration (e : Entry) : Except KeyFault Registration := do
  let base ← e.keyNamed e.key
  let mod1 ← e.modifierNamed e.mod1
  let mod2 ← e.modifierNamed e.mod2
  let mod3 ← e.modifierNamed e.mod3
  return {
    function := e.function, kind := e.kind, base, mod1, mod2, mod3, priority := e.priority,
    canFocus := e.canFocus, canRepeat := e.canRepeat, allowSubCombos := e.allowSubCombos }

/-- The name of a modifier in use. -/
def modifierName (k : Key) : Option String := if k = .unknown then none else some k.name

/-- The entry for a registration. -/
def ofRegistration (r : Registration) : Entry where
  function := r.function
  key := r.base.name
  mod1 := modifierName r.mod1
  mod2 := modifierName r.mod2
  mod3 := modifierName r.mod3
  kind := r.kind
  canFocus := r.canFocus
  canRepeat := r.canRepeat
  allowSubCombos := r.allowSubCombos
  priority := r.priority

end Entry

/-- A keybind file. -/
structure KeybindFile where
  version : Nat := fileVersion
  entries : List Entry := []
  /-- Functions that have no binding by intention. -/
  leaveEmpty : List String := []
  deriving DecidableEq, Inhabited, Repr

end KeyConsole.Keybinds
