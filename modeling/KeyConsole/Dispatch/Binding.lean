import KeyConsole.Keyboard.Combo

/-!
# Dispatch.Binding: combinations bound to functions

A function is a named action.  A binding ties a combination of keys to a function and is down or up.  A
registration is what a binding is made from.
-/

namespace KeyConsole.Dispatch

open Keyboard (Key Combo)

/-- How a binding answers to presses. -/
inductive BindingKind where
  /-- Down while it is held. -/
  | state
  /-- Every press turns it over. -/
  | toggle
  /-- A press queues the name of the function as a console command. -/
  | command
  deriving DecidableEq, Inhabited, Repr

/-- The name of a kind. -/
def BindingKind.name : BindingKind → String
  | state => "State"
  | toggle => "Toggle"
  | command => "Command"

/-- The kind with a name. -/
def BindingKind.ofName? (name : String) : Option BindingKind :=
  [state, toggle, command].find? (·.name = name)

/-- The state of a binding. -/
inductive BindingState where
  | up
  | down
  deriving DecidableEq, Inhabited, Repr

/-- The name of a state. -/
def BindingState.name : BindingState → String
  | up => "Up"
  | down => "Down"

/-- What a binding is made from. -/
structure Registration where
  function : String
  kind : BindingKind := .state
  base : Key
  mod1 : Key := .unknown
  mod2 : Key := .unknown
  mod3 : Key := .unknown
  priority : Int := 0
  /-- The binding may move the focus of the user interface. -/
  canFocus : Bool := false
  /-- Repeated presses fire the binding again. -/
  canRepeat : Bool := false
  /-- Bindings of smaller combinations may fire along with this one. -/
  allowSubCombos : Bool := false
  deriving DecidableEq, Inhabited, Repr

/-- A combination of keys bound to a function. -/
structure Binding where
  id : Nat
  function : String
  kind : BindingKind
  combo : Combo
  canFocus : Bool
  canRepeat : Bool
  allowSubCombos : Bool
  priority : Int
  state : BindingState := .up
  deriving DecidableEq, Inhabited, Repr

namespace Binding

/-- The binding of a registration, up; nothing if it has no base key. -/
def ofRegistration? (id : Nat) (r : Registration) : Option Binding :=
  (Combo.pack? r.base r.mod1 r.mod2 r.mod3).map fun combo =>
    { id, combo, function := r.function, kind := r.kind, canFocus := r.canFocus,
      canRepeat := r.canRepeat, allowSubCombos := r.allowSubCombos, priority := r.priority }

/-- The registration of a binding, its modifiers in the order of the combination. -/
def toRegistration (b : Binding) : Registration where
  function := b.function
  kind := b.kind
  base := b.combo.slot 0
  mod1 := b.combo.slot 3
  mod2 := b.combo.slot 2
  mod3 := b.combo.slot 1
  priority := b.priority
  canFocus := b.canFocus
  canRepeat := b.canRepeat
  allowSubCombos := b.allowSubCombos

/-- The binding is down. -/
def isDown (b : Binding) : Bool := b.state = .down

/-- Function and combination as text. -/
def text (b : Binding) : String := b.function ++ ": " ++ b.combo.text

/-- Whether `a` stands before `b` in a table, or neither before the other: the greater combination first,
and of one combination the higher priority. -/
def precedes (a b : Binding) : Bool :=
  b.combo.packed < a.combo.packed || (a.combo.packed = b.combo.packed && b.priority ≤ a.priority)

end Binding

end KeyConsole.Dispatch
