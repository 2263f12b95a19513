import KeyConsole.Yaml.Source

/-!
# Yaml.Gap: line ends within a text

Blanks between two words of a line stand for themselves.  If there is a line end among them, the blanks do not
count: a single line end stands for a space, and of several the first does not count.
-/

namespace KeyConsole.Yaml

/-- The gap behind a word, as far as it has been read. -/
structure Gap where
  /-- The blanks before any line end, the last one first. -/
  spaces : List Char := []
  /-- A line end, written out or escaped, is part of the gap. -/
  broken : Bool := false
  /-- The first line end, unless that one is escaped. -/
  first : Option Char := none
  /-- The line ends behind the first, the last one first. -/
  later : List Char := []
  deriving DecidableEq, Inhabited, Repr

namespace Gap

/-- The gap that begins with an escaped line end. -/
def escaped : Gap := { broken := true }

/-- The gap with one more blank or line end. -/
def add (g : Gap) (c : Char) : Gap :=
  if isBreak c then
    if g.broken then { g with later := c :: g.later } else { broken := true, first := some c }
  else if g.broken then g
  else { g with spaces := c :: g.spaces }

/-- The characters that a gap stands for between two words. -/
def joined (g : Gap) : List Char :=
  if !g.broken then g.spaces.reverse
  else
    match g.first with
    | some '\n' => if g.later.isEmpty then [' '] else g.later.reverse
    | some c => c :: g.later.reverse
    | none => g.later.reverse

end Gap

/-- The text read so far, the last character first, continued by a gap. -/
def withGap (text : List Char) (g : Gap) : List Char := g.joined.reverseAux text

end KeyConsole.Yaml
