/-!
# Keyboard.Key: the keys

Every key has a code of one byte and a name.  The code zero stands for no key that is known, and marks an
unused place in a combination.
-/

namespace KeyConsole.Keyboard

/-- A key of the keyboard or the mouse, in the order of the codes. -/
inductive Key where
  | unknown | mouseLeft | mouseRight | mouseMiddle | mouseButton4 | mouseButton5 | mouseButton6
  | mouseButton7 | mouseButton8 | mouseButton9 | keyA | keyB | keyC | keyD | keyE | keyF | keyG
  | keyH | keyI | keyJ | keyK | keyL | keyM | keyN | keyO | keyP | keyQ | keyR | keyS | keyT
  | keyU | keyV | keyW | keyX | keyY | keyZ | num0 | num1 | num2 | num3 | num4 | num5 | num6
  | num7 | num8 | num9 | numpadNum0 | numpadNum1 | numpadNum2 | numpadNum3 | numpadNum4
  | numpadNum5 | numpadNum6 | numpadNum7 | numpadNum8 | numpadNum9 | escape | control | shift
  | alt | lSystem | rSystem | menu | lBracket | rBracket | semiColon | comma | period
  | apostrophe | slash | backSlash | tilde | equal | space | enter | numpadEnter | backSpace
  | tab | pageUp | pageDown | endKey | home | insert | delete | minus | numpadAdd
  | numpadSubtract | numpadDivide | numpadMultiply | numpadDecimal | left | right | up | down
  | f1 | f2 | f3 | f4 | f5 | f6 | f7 | f8 | f9 | f10 | f11 | f12 | f13 | f14 | f15 | f16 | f17
  | f18 | f19 | f20 | f21 | f22 | f23 | f24 | pause | capsLock | scrollLock | numLock
  | printScreen
  deriving DecidableEq, Inhabited, Repr

namespace Key

/-- The code of a key. -/
def code (k : Key) : Nat := k.ctorIdx

/-- The number of codes in use. -/
def codeCount : Nat := 123

/-- The key with a code; codes that are not in use stand for no known key. -/
def ofCode (n : Nat) : Key := if n < codeCount then Key.ofNat n else unknown

/-- Every key that is known, by code. -/
def all : List Key := (List.range (codeCount - 1)).map fun n => ofCode (n + 1)

/-- The names by code. -/
def names : Array String := #[
  "Unknown", "MouseLeft", "MouseRight", "MouseMiddle", "MouseButton4", "MouseButton5",
  "MouseButton6", "MouseButton7", "MouseButton8", "MouseButton9", "A", "B", "C", "D", "E", "F",
  "G", "H", "I", "J", "K", "L", "M", "N", "O", "P", "Q", "R", "S", "T", "U", "V", "W", "X", "Y",
  "Z", "Num0", "Num1", "Num2", "Num3", "Num4", "Num5", "Num6", "Num7", "Num8", "Num9",
  "NumpadNum0", "NumpadNum1", "NumpadNum2", "NumpadNum3", "NumpadNum4", "NumpadNum5",
  "NumpadNum6", "NumpadNum7", "NumpadNum8", "NumpadNum9", "Escape", "Control", "Shift", "Alt",
  "LSystem", "RSystem", "Menu", "LBracket", "RBracket", "SemiColon", "Comma", "Period",
  "Apostrophe", "Slash", "BackSlash", "Tilde", "Equal", "Space", "Return", "NumpadEnter",
  "BackSpace", "Tab", "PageUp", "PageDown", "End", "Home", "Insert", "Delete", "Minus",
  "NumpadAdd", "NumpadSubtract", "NumpadDivide", "NumpadMultiply", "NumpadDecimal", "Left",
  "Right", "Up", "Down", "F1", "F2", "F3", "F4", "F5", "F6", "F7", "F8", "F9", "F10", "F11",
  "F12", "F13", "F14", "F15", "F16", "F17", "F18", "F19", "F20", "F21", "F22", "F23", "F24",
  "Pause", "CapsLock", "ScrollLock", "NumLock", "PrintScreen"]

/-- The name of a key. -/
def name (k : Key) : String := names[k.code]?.getD ""

/-- A key whose state is also reported along with other keys. -/
def isModifier : Key → Bool
  | control | shift | alt | lSystem | rSystem => true
  | _ => false

/-- A button of the mouse. -/
def isMouseButton (k : Key) : Bool := mouseLeft.code ≤ k.code && k.code ≤ mouseButton9.code

/-- Keys compare by code. -/
instance : LT Key := ⟨fun a b => a.code < b.code⟩

instance (a b : Key) : Decidable (a < b) := inferInstanceAs (Decidable (a.code < b.code))

theorem ofCode_code (k : Key) : ofCode k.code = k := by
  cases k <;> rfl

theorem code_lt (k : Key) : k.code < codeCount := by
  cases k <;> decide

theorem code_injective {a b : Key} (h : a.code = b.code) : a = b := by
  rw [← ofCode_code a, ← ofCode_code b, h]

end Key

end KeyConsole.Keyboard
