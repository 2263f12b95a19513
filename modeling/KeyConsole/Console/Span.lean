import KeyConsole.Decimal.IntText

/-!
# Console.Span: stretches of a source text
-/

namespace KeyConsole.Console

/-- A stretch of a source text, in bytes; `stop` is the first byte behind it. -/
structure Span where
  start : Nat
  stop : Nat
  deriving DecidableEq, Repr, Inhabited

namespace Span

/-- The stretch between two positions, empty if the second is before the first. -/
def between (start stop : Nat) : Span := ⟨start, max start stop⟩

theorem start_le_stop_between (start stop : Nat) : (between start stop).start ≤ (between start stop).stop :=
  Nat.le_max_left ..

/-- Number of bytes. -/
def size (s : Span) : Nat := s.stop - s.start

/-- Whether the stretch holds no byte. -/
def isEmpty (s : Span) : Bool := s.start = s.stop

/-- A span as text. -/
def toText (s : Span) : String := Decimal.natText s.start ++ ".." ++ Decimal.natText s.stop

end Span

end KeyConsole.Console
