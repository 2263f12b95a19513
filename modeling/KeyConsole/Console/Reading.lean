import KeyConsole.Console.Cursor

/-!
# Console.Reading: computations that move a cursor

A reading moves a cursor and may fail; a failed reading still leaves the cursor it got to, with the
fault that stopped it.
-/

namespace KeyConsole.Console

/-- A computation that moves a cursor and may fail. -/
abbrev Reading (α : Type) := OptionT (StateM Cursor) α

namespace Reading

variable {α : Type}

/-- Ask the cursor. -/
def look (f : Cursor → α) : Reading α := do return f (← get)

/-- Change the cursor. -/
def move (f : Cursor → Cursor) : Reading Unit := modify f

/-- Change the cursor with an answer. -/
def step (f : Cursor → α × Cursor) : Reading α := modifyGet f

/-- Fail for a cause at a place. -/
def refuse (cause : Cause) (span : Span) : Reading α := do
  move (·.blame cause span)
  failure

/-- Read from a child cursor.  If this fails, the child's fault and request are taken over. -/
def inChild (child : Cursor) (r : Reading α) : Reading α := do
  match r.run.run child with
  | (some a, _) => return a
  | (none, child) =>
    move (·.absorb child)
    failure

/-- Move over white space. -/
def skipSpace : Reading Unit := move Cursor.skipSpace

/-- Move over a given character, if it is next. -/
def eat (x : Char) : Reading Bool := step (Cursor.eat x)

/-- The place of the cursor. -/
def offset : Reading Nat := look Cursor.offset

end Reading

end KeyConsole.Console
