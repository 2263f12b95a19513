import KeyConsole.Yaml.Source

/-!
# Yaml.Block: texts in indented lines

A block text is all the lines that are indented far enough.  A literal one keeps its line ends.  In a folded
one a line end between two lines that begin with no blank stands for a space.  How far the lines are
indented is written down at the start, or the first line of the text shows it.
-/

namespace KeyConsole.Yaml

/-- What becomes of the line ends behind the last line of a block text. -/
inductive Tail where
  /-- None of them counts. -/
  | strip
  /-- The first one counts. -/
  | clip
  /-- All of them count. -/
  | keep
  deriving DecidableEq, Inhabited, Repr

/-- The first line of a block text. -/
structure BlockHead where
  tail : Tail := .clip
  /-- The indentation of the lines, counted from that around them. -/
  indent : Option Nat := none
  deriving DecidableEq, Inhabited, Repr

/-- The sign for a tail. -/
def tailSign? (c : Option Char) : Option Tail :=
  match c with
  | some '+' => some .keep
  | some '-' => some .strip
  | _ => none

/-- The digit for an indentation; nothing for a zero, which may not stand there. -/
def indentSign? (c : Option Char) : Option (Option Nat) :=
  match c with
  | some c => if c = '0' then none else some (if c.isDigit then some (c.toNat - '0'.toNat) else none)
  | none => some none

/-- Read the signs at the start of a block text, in either order. -/
def blockHead? (s : Spot) : Option (BlockHead × Spot) := do
  match tailSign? s.peek with
  | some tail =>
    let s := s.next
    match ← indentSign? s.peek with
    | some n => return ({ tail, indent := some n }, s.next)
    | none => return ({ tail }, s)
  | none =>
    match ← indentSign? s.peek with
    | none => return ({}, s)
    | some n =>
      let s := s.next
      match tailSign? s.peek with
      | some tail => return ({ tail, indent := some n }, s.next)
      | none => return ({ indent := some n }, s)

/-- Skip blanks and a comment up to the end of a line. -/
def skipComment (s : Spot) : Spot :=
  let s := s.skipRun isSpacing
  if s.peek = some '#' then s.skipRun (!isBreak ·) else s

/-- Skip a line end. -/
def skipBreak (s : Spot) : Spot := if s.peek.any isBreak then s.next else s

/-- Empty lines that have been read. -/
structure EmptyLines where
  spot : Spot
  /-- The column up to which spaces have been found. -/
  deepest : Nat := 0
  /-- The line ends, the last one first. -/
  breaks : List Char := []
  deriving DecidableEq, Repr

/-- Read empty lines and the indentation behind them, at most as many as the number says.  Without a known
indentation all spaces count as such. -/
def emptyLines (indent : Option Nat) : Nat → EmptyLines → Option EmptyLines
  | 0, _ => none
  | fuel + 1, e =>
    let spaces := (e.spot.run (· = ' ')).length
    let s := e.spot.skip (indent.elim spaces fun n => min spaces (n - e.spot.column))
    let e := { e with spot := s, deepest := max e.deepest s.column }
    if s.peek = some '\t' && indent.all (s.column < ·) then none
    else
      match s.peek with
      | some c =>
        if isBreak c then emptyLines indent fuel { e with spot := s.next, breaks := c :: e.breaks }
        else some e
      | none => some e

/-- The lines of a block text that have been read. -/
structure BlockLines where
  spot : Spot
  /-- The text without the line ends that follow, the last character first. -/
  text : List Char := []
  /-- The line end of the last line. -/
  lastBreak : Option Char := none
  /-- The line ends of the empty lines behind it, the last one first. -/
  breaks : List Char := []
  /-- The last line begins with a blank. -/
  indented : Bool := false
  deriving DecidableEq, Repr

/-- What stands between the lines read and the next one, which may begin with a blank. -/
def BlockLines.joint (b : BlockLines) (literal indented : Bool) : List Char :=
  if !literal && b.lastBreak = some '\n' && !b.indented && !indented then
    if b.breaks.isEmpty then [' '] else b.breaks.reverse
  else b.lastBreak.toList ++ b.breaks.reverse

/-- Read the lines with an indentation, at most as many as the number says; `bound` is a bound for the empty
lines behind each of them. -/
def blockLines (bound : Nat) (literal : Bool) (indent : Nat) : Nat → BlockLines → Option BlockLines
  | 0, _ => none
  | fuel + 1, b =>
    let s := b.spot
    if s.column = indent && !s.atEnd then do
      let indented := s.peek.any isSpacing
      let line := s.run (!isBreak ·)
      let s := s.skip line.length
      let e ← emptyLines (some indent) bound { spot := skipBreak s }
      blockLines bound literal indent fuel {
        spot := e.spot
        text := line.reverseAux ((b.joint literal indented).reverseAux b.text)
        lastBreak := s.peek
        breaks := e.breaks
        indented }
    else some b

/-- The text with its tail. -/
def BlockLines.toText (b : BlockLines) (tail : Tail) : String :=
  let ends := match tail with
    | .strip => []
    | .clip => b.lastBreak.toList
    | .keep => b.lastBreak.toList ++ b.breaks.reverse
  String.ofList (ends.reverseAux b.text).reverse

/-- Read a block text, from behind its sign; `outer` is the indentation around it, negative for none, and
`bound` is more than the number of characters that are left. -/
def block? (bound : Nat) (literal : Bool) (outer : Int) (s : Spot) : Option (String × Spot) := do
  let (head, s) ← blockHead? s
  let s := skipComment s
  if !s.peek.all isBreak then none
  else
    let s := skipBreak s
    let known := head.indent.map (max outer 0).toNat.add
    let e ← emptyLines known bound { spot := s }
    let indent := known.getD (max (max e.deepest (outer + 1).toNat) 1)
    let b ← blockLines bound literal indent bound { spot := e.spot, breaks := e.breaks }
    return (b.toText head.tail, b.spot)

end KeyConsole.Yaml
