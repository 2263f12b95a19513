import KeyConsole.Keyboard.Key

/-!
# Keyboard.Combo: a key with up to three modifiers, packed into a word

The base key is the lowest byte.  The modifiers stand above it in descending order, the greatest in the
highest byte and unused places last, so a combination has one packed form, and one with modifiers is
greater than any single key.
-/

namespace KeyConsole.Keyboard

/-- A combination of keys in its packed form. -/
structure Combo where
  packed : UInt32
  deriving DecidableEq, Inhabited, Repr

namespace Combo

/-- Two keys, the greater one first. -/
def exchange (a b : Key) : Key × Key := if a < b then (b, a) else (a, b)

/-- Three keys in descending order. -/
def descending (a b c : Key) : Key × Key × Key :=
  let (a, b) := exchange a b
  let (b, c) := exchange b c
  let (a, b) := exchange a b
  (a, b, c)

/-- The word with these bytes, the lowest first. -/
def ofBytes (b0 b1 b2 b3 : Nat) : UInt32 := .ofNat (b0 + Nat.pow 2 8 * b1 + Nat.pow 2 16 * b2 + Nat.pow 2 24 * b3)

/-- Pack a base key with three modifiers, which may be unknown; nothing if the base key is. -/
def pack? (base mod1 mod2 mod3 : Key) : Option Combo :=
  if base = .unknown then none
  else
    let (a, b, c) := descending mod1 mod2 mod3
    some ⟨ofBytes base.code c.code b.code a.code⟩

/-- Pack a base key with the first three of some modifiers. -/
def ofModifiers? (base : Key) (modifiers : List Key) : Option Combo :=
  let nth (i : Nat) : Key := modifiers[i]?.getD .unknown
  pack? base (nth 0) (nth 1) (nth 2)

/-- The message for a combination without base key. -/
def noBaseMessage : String := "cannot bind the Unknown key"

/-- The key in one of the four bytes, the base key in byte 0. -/
def slot (c : Combo) (i : Nat) : Key := .ofCode (c.packed.toNat / Nat.pow 2 (8 * i) % Nat.pow 2 8)

/-- The key that the modifiers go with. -/
def base (c : Combo) : Key := c.slot 0

/-- The three modifiers, unused places last. -/
def modifiers (c : Combo) : List Key := [c.slot 3, c.slot 2, c.slot 1]

/-- The keys in use, the base key first. -/
def keys (c : Combo) : List Key := [c.slot 0, c.slot 1, c.slot 2, c.slot 3].filter (· ≠ .unknown)

/-- The number of modifiers in use. -/
def modifierCount (c : Combo) : Nat := (c.modifiers.filter (· ≠ .unknown)).length

/-- Whether a key is in the combination. -/
def contains (c : Combo) (k : Key) : Bool := c.keys.contains k

/-- Whether every key of `sub` is in the combination. -/
def covers (c sub : Combo) : Bool := sub.keys.all c.contains

/-- Combinations compare by their packed form. -/
def order (a b : Combo) : Ordering := compare a.packed b.packed

/-- The names of the modifiers and of the base key, with a plus sign between them. -/
def text (c : Combo) : String :=
  let used := c.modifiers.reverse.filter (· ≠ .unknown)
  "+".intercalate (used.map Key.name ++ [c.base.name])

end Combo

end KeyConsole.Keyboard
