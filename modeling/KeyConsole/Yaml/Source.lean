/-!
# Yaml.Source: the text that is scanned

A source may hold printable characters and line ends only.  Its line ends are made alike before it is
scanned: a carriage return, with or without a newline after it, and the next-line character become a newline.
The two separators of Unicode are line ends as well but stay what they are.
-/

namespace KeyConsole.Yaml

/-- A character that may stand in a source. -/
def isAllowed (c : Char) : Bool :=
  let n := c.toNat
  c = '\t' || c = '\n' || c = '\r' || (0x20 ≤ n && n ≤ 0x7e) || n = 0x85
    || (0xa0 ≤ n && n ≠ 0xfffe && n ≠ 0xffff)

/-- The source with its line ends made alike. -/
def unified : List Char → List Char
  | [] => []
  | '\r' :: '\n' :: rest => '\n' :: unified rest
  | c :: rest => (if c = '\r' || c = '\u0085' then '\n' else c) :: unified rest

/-- A line end of a unified source. -/
def isBreak (c : Char) : Bool := c = '\n' || c = '\u2028' || c = '\u2029'

/-- A blank inside a line. -/
def isSpacing (c : Char) : Bool := c = ' ' || c = '\t'

/-- A blank or a line end. -/
def isGap (c : Char) : Bool := isSpacing c || isBreak c

/-- A gap or the end of the source. -/
def isGapOrEnd (c : Option Char) : Bool := c.all isGap

/-- A place in a source: what is left from there, and its distance from the start, its line and column. -/
structure Spot where
  rest : List Char
  index : Nat := 0
  line : Nat := 0
  column : Nat := 0
  deriving DecidableEq, Inhabited, Repr

namespace Spot

/-- The character some places ahead. -/
def ahead (s : Spot) (n : Nat) : Option Char := s.rest[n]?

/-- The next character. -/
def peek (s : Spot) : Option Char := s.rest.head?

/-- Nothing is left. -/
def atEnd (s : Spot) : Bool := s.rest.isEmpty

/-- The spot behind the next character. -/
def next (s : Spot) : Spot :=
  match s.rest with
  | [] => s
  | c :: rest =>
    if isBreak c then { rest, index := s.index + 1, line := s.line + 1, column := 0 }
    else { rest, index := s.index + 1, line := s.line, column := s.column + 1 }

/-- The spot behind some characters. -/
def skip : Nat → Spot → Spot
  | 0, s => s
  | n + 1, s => skip n s.next

/-- The characters up to the first that does not fit. -/
def run (p : Char → Bool) (s : Spot) : List Char := s.rest.takeWhile p

/-- The spot behind the characters that fit. -/
def skipRun (p : Char → Bool) (s : Spot) : Spot := s.skip (s.run p).length

/-- At the start of a line that begins with the marker, which a gap or the end follows. -/
def atLineMarked (s : Spot) (marker : List Char) : Bool :=
  s.column = 0 && marker.isPrefixOf s.rest && isGapOrEnd (s.ahead marker.length)

/-- The marker of the start of a document. -/
def atDocumentStart (s : Spot) : Bool := s.atLineMarked ['-', '-', '-']

/-- The marker of the end of a document. -/
def atDocumentEnd (s : Spot) : Bool := s.atLineMarked ['.', '.', '.']

/-- One of the two markers of documents. -/
def atDocumentMarker (s : Spot) : Bool := s.atDocumentStart || s.atDocumentEnd

end Spot

/-- The start of a source, if it has only characters that may stand in one. -/
def start? (source : String) : Option Spot :=
  if source.toList.all isAllowed then some { rest := unified source.toList } else none

end KeyConsole.Yaml
