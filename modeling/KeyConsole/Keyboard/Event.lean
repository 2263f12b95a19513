import KeyConsole.Keyboard.Key

/-!
# Keyboard.Event: keys that go down and up

An event tells which key it is about, and which modifiers count as held along with it.
-/

namespace KeyConsole.Keyboard

/-- The modifiers that an event reports as held. -/
structure Flags where
  alt : Bool := false
  control : Bool := false
  shift : Bool := false
  system : Bool := false
  deriving DecidableEq, Inhabited, Repr

namespace Flags

/-- The keys that flags stand for, in the order they are looked at. -/
def keys : List Key := [.alt, .control, .shift, .lSystem]

/-- The flag that stands for a key. -/
def has (f : Flags) : Key → Bool
  | .alt => f.alt
  | .control => f.control
  | .shift => f.shift
  | .lSystem => f.system
  | _ => false

/-- The flags with one of them set. -/
def set (f : Flags) (k : Key) (on : Bool) : Flags :=
  match k with
  | .alt => { f with alt := on }
  | .control => { f with control := on }
  | .shift => { f with shift := on }
  | .lSystem => { f with system := on }
  | _ => f

end Flags

/-- A key that goes down or up. -/
structure Event where
  key : Key
  flags : Flags := {}
  /-- The key is held and reported again. -/
  isRepeat : Bool := false
  /-- Somebody has dealt with the event. -/
  handled : Bool := false
  deriving DecidableEq, Inhabited, Repr

/-- What an event is about. -/
inductive EventKind where
  | down
  | repeat
  | up
  deriving DecidableEq, Inhabited, Repr

/-- The name of a kind of event. -/
def EventKind.name : EventKind → String
  | down => "Down"
  | .repeat => "Repeat"
  | up => "Up"

end KeyConsole.Keyboard
