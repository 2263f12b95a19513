import KeyConsole.Console.Fault
import KeyConsole.Console.Request
import KeyConsole.Text.Blank

/-!
# Console.Cursor: a place in a source text

A cursor stands in a source text and sees what is left of its range, up to the byte `stop`.  It keeps the
closing marks of the blocks it is in, the variables known so far, the first fault and the latest request.
`slice?` cuts a balanced block off the front: a child cursor ranges over the block and the cursor itself
moves behind it.
-/

namespace KeyConsole.Console

open Ordered (NameMap)
open Text (isBlank)

/-- A place in a source text with what is known there. -/
structure Cursor where
  /-- The whole source. -/
  source : String
  /-- Bytes of the source before the cursor. -/
  offset : Nat
  /-- Where the range ends, in bytes. -/
  stop : Nat
  /-- The characters from the cursor to the end of the range. -/
  rest : List Char
  /-- Closing marks of the open blocks, innermost first. -/
  closers : List Char := []
  /-- A newline ends a command and is no space. -/
  newlineEnds : Bool := false
  /-- Requests are kept. -/
  completing : Bool := false
  fault : Option Fault := none
  request : Option Request := none
  /-- The types of the variables set so far. -/
  known : NameMap ValueType := .empty

namespace Cursor

/-- The start of a source. -/
def ofSource (source : String) : Cursor :=
  { source, offset := 0, stop := Text.size source.toList, rest := source.toList }

/-- Nothing is left of the range. -/
def atEnd (c : Cursor) : Bool := c.stop ≤ c.offset

/-! ### Characters -/

/-- The next character. -/
def peek (c : Cursor) : Option Char := c.rest.head?

/-- Move over the next character. -/
def next (c : Cursor) : Option Char × Cursor :=
  match c.rest with
  | [] => (none, c)
  | x :: rest => (some x, { c with rest, offset := c.offset + x.utf8Size })

/-- Move over a given character, if it is next. -/
def eat (x : Char) (c : Cursor) : Bool × Cursor :=
  if c.peek = some x then (true, c.next.2) else (false, c)

/-- The characters from here on that pass a test. -/
def upcoming (test : Char → Bool) (c : Cursor) : List Char := c.rest.takeWhile test

/-- Move over the characters that pass a test. -/
def skip (test : Char → Bool) (c : Cursor) : Cursor :=
  { c with rest := c.rest.dropWhile test, offset := c.offset + Text.size (c.upcoming test) }

/-- Whether a character separates words here. -/
def isSpace (c : Cursor) (x : Char) : Bool := isBlank x && !(c.newlineEnds && x = '\n')

/-- Move over white space. -/
def skipSpace (c : Cursor) : Cursor := c.skip c.isSpace

/-- Move over white space and the word behind it; there is no word if the first character behind the
space fails the test. -/
def word (test : Char → Bool) (c : Cursor) : Option String × Cursor :=
  let c := c.skipSpace
  let letters := c.upcoming test
  (if letters.isEmpty then none else some (String.ofList letters), c.skip test)

/-- The word that `word` would read. -/
def peekWord (test : Char → Bool) (c : Cursor) : Option String := (c.word test).1

/-- Move over a given word, if it stands next between spaces. -/
def eatWord (w : String) (c : Cursor) : Bool × Cursor :=
  let (found, after) := c.word (!isBlank ·)
  if found = some w then (true, after) else (false, c)

/-! ### Ends of commands and blocks -/

/-- Enter a block that ends at a mark. -/
def pushCloser (mark : Char) (c : Cursor) : Cursor := { c with closers := mark :: c.closers }

/-- The mark of the innermost open block is next. -/
def atCloser (c : Cursor) : Bool := c.closers.head?.any (c.peek = some ·)

/-- Move over the mark of the innermost open block and leave the block. -/
def eatCloser (c : Cursor) : Bool × Cursor :=
  if c.atCloser then (true, { c.next.2 with closers := c.closers.tail }) else (false, c)

/-- The command or its block ends here. -/
def atCommandEnd (c : Cursor) : Bool :=
  match c.peek with
  | none => false
  | some x => x = ';' || x = '|' || (c.newlineEnds && x = '\n') || c.closers.head? = some x

/-- What one mark between commands does. -/
structure Joint where
  /-- Another command has to follow. -/
  expected : Bool
  /-- The type piped on. -/
  piped : Option ValueType
  after : Cursor

/-- A mark between commands: `;`, and a newline that ends commands, drop what is piped; `|` keeps it and
demands a command, and counts only if there is something to pipe. -/
def joint? (piped : Option ValueType) (c : Cursor) : Option Joint :=
  if c.peek = some ';' then some ⟨false, none, c.next.2⟩
  else if (piped.any (· ≠ .void)) && c.peek = some '|' then some ⟨true, piped, c.next.2⟩
  else if c.newlineEnds && c.peek = some '\n' then some ⟨false, none, c.next.2⟩
  else none

/-- Further marks after a first one, as long as no command is demanded. -/
def moreJoints : Nat → Joint → Joint
  | 0, j => j
  | n + 1, j =>
    if j.expected then j
    else
      match j.after.joint? j.piped with
      | none => j
      | some k => moreJoints n { k with after := k.after.skipSpace }

/-- Further marks behind a first one, as many as there are. -/
def allJoints (j : Joint) : Joint := moreJoints j.after.rest.length j

/-- All marks between two commands, and the spaces behind them. -/
def joints (piped : Option ValueType) (c : Cursor) : Joint :=
  match c.joint? piped with
  | none => ⟨false, piped, c⟩
  | some j => allJoints { j with after := j.after.skipSpace }

/-! ### Balanced blocks -/

/-- Where a scan for a closing mark is: in plain text, in a quoted text, or behind a backslash in one. -/
inductive ScanMode where
  | plain
  | quoted
  | escaped
  deriving DecidableEq, Repr

/-- Split a text behind the mark that closes `depth` open blocks.  Marks in double quotes do not count. -/
def splitBlock? (opening closing : Char) : Nat → ScanMode → List Char → Option (List Char × List Char)
  | _, _, [] => none
  | depth, mode, x :: rest =>
    let onward (depth : Nat) (mode : ScanMode) : Option (List Char × List Char) :=
      (splitBlock? opening closing depth mode rest).map fun (block, after) => (x :: block, after)
    match mode with
    | .escaped => onward depth .quoted
    | .quoted => onward depth (if x = '"' then .plain else if x = '\\' then .escaped else .quoted)
    | .plain =>
      if x = opening then onward (depth + 1) .plain
      else if x = closing then if depth ≤ 1 then some ([x], rest) else onward (depth - 1) .plain
      else onward depth (if x = '"' then .quoted else .plain)

/-- Cut off a balanced block: a cursor from behind its opening mark through its closing mark, and this
cursor behind the block. -/
def slice? (opening closing : Char) (c : Cursor) : Option (Cursor × Cursor) :=
  let (found, inside) := c.skipSpace.eat opening
  if !found then none
  else
    (splitBlock? opening closing 1 .plain inside.rest).map fun (block, after) =>
      let stop := inside.offset + Text.size block
      ({ inside with rest := block, stop, closers := [], fault := none, request := none },
        { inside with rest := after, offset := stop })

/-! ### Places to come back to -/

/-- A place and the blocks open there. -/
structure Mark where
  offset : Nat
  closers : List Char

/-- The place of the cursor. -/
def mark (c : Cursor) : Mark := ⟨c.offset, c.closers⟩

/-- Go to a place; the range stays as it is. -/
def goTo (m : Mark) (c : Cursor) : Cursor :=
  { c with
    offset := m.offset
    closers := m.closers
    rest := (Text.slice? m.offset c.stop c.source.toList).getD [] }

/-! ### Faults, requests and variables -/

/-- Keep a fault unless there is one already. -/
def keepFault (f : Fault) (c : Cursor) : Cursor :=
  if c.fault.isSome then c
  else { c with fault := some { f with source := some (f.source.getD c.source) } }

/-- Keep a fault with this cause and place. -/
def blame (cause : Cause) (span : Span) (c : Cursor) : Cursor := c.keepFault { cause, span := some span }

/-- Keep a request, if requests are wanted. -/
def offer (request : Request) (c : Cursor) : Cursor :=
  if c.completing then { c with request := some request } else c

/-- Take over the fault and the request of a child. -/
def absorb (c child : Cursor) : Cursor :=
  let c := child.fault.elim c fun f => c.keepFault f
  { c with request := child.request <|> c.request }

/-- Make a variable known. -/
def declare (name : String) (t : ValueType) (c : Cursor) : Cursor :=
  { c with known := c.known.put name t }

end Cursor

end KeyConsole.Console
