import KeyConsole.Yaml.Meaning
import KeyConsole.Yaml.Token

/-!
# Yaml.Writing: trees as text

Lists and fields are written as blocks.  A text is written plainly if it reads back as it is.  If not, it is
quoted, and a text of several lines becomes a literal block.
-/

namespace KeyConsole.Yaml

/-- What can be written. -/
inductive Tree where
  /-- A word that needs no quotes. -/
  | word (s : String)
  | text (s : String)
  | list (items : List Tree)
  | fields (entries : List (String × Tree))

/-! ### Texts -/

/-- A character that can be written without an escape. -/
def isPrintable (c : Char) : Bool :=
  let n := c.toNat
  c = '\n' || (0x20 ≤ n && n ≤ 0x7e) || (0xa0 ≤ n && n ≠ 0xfeff && n ≠ 0xfffe && n ≠ 0xffff)

/-- A plain text may not begin like this. -/
def beginsReserved : List Char → Bool
  | '-' :: '-' :: '-' :: _ | '.' :: '.' :: '.' :: _ => true
  | c :: rest =>
    "#,[]\x7b\x7d&*!|>'\"%@`".toList.contains c
      || ((c = '?' || c = ':' || c = '-') && isGapOrEnd rest.head?)
  | [] => false

/-- A colon before a gap, or a hash sign after one, somewhere behind the first character. -/
def hasReserved : List Char → Bool
  | c :: next :: rest =>
    (next = ':' && isGapOrEnd rest.head?) || (next = '#' && isGap c) || hasReserved (next :: rest)
  | _ => false

/-- Two characters that fit stand next to each other. -/
def hasPair (p q : Char → Bool) : List Char → Bool
  | c :: next :: rest => (p c && q next) || hasPair p q (next :: rest)
  | _ => false

/-- How far a text restricts the way it is written. -/
structure Shape where
  plain : Bool
  singleQuoted : Bool
  block : Bool
  deriving DecidableEq, Repr

/-- The ways in which a text can be written. -/
def shape (cs : List Char) : Shape :=
  let space := (· = ' ')
  let special := hasPair space isBreak cs || !cs.all isPrintable
  let spaceAfter := hasPair isBreak space cs
  let outside (c : Option Char) : Bool := c.any fun c => c = ' ' || isBreak c
  { plain := !(special || spaceAfter || outside cs.head? || outside cs.getLast? || cs.any isBreak
      || beginsReserved cs || hasReserved cs)
    singleQuoted := !(special || spaceAfter)
    block := !(special || cs.getLast? = some ' ') }

/-- The style in which a text is written. -/
def styleOf (s : String) : Style :=
  let shape := shape s.toList
  if s.toList.contains '\n' then if shape.block then .literal else .doubleQuoted
  else if shape.plain && !isAmbiguous s then .plain
  else if shape.singleQuoted then .singleQuoted
  else .doubleQuoted

/-- Spaces for the indentation of a line. -/
def pad (indent : Nat) : List Char := List.replicate indent ' '

/-- The characters of a text, each line behind the first indented; `fresh` says that a line is about to
begin. -/
def indented (indent : Nat) (put : Char → List Char) : Bool → List Char → List Char
  | _, [] => []
  | fresh, c :: rest =>
    if isBreak c then c :: indented indent put true rest
    else (if fresh then pad indent else []) ++ put c ++ indented indent put false rest

/-- A text in single quotes. -/
def singleQuotes (indent : Nat) (cs : List Char) : List Char :=
  let double (c : Char) : List Char := if c = '\'' then ['\'', '\''] else [c]
  let ending := if cs.getLast?.any isBreak then pad indent else []
  '\'' :: indented indent double false cs ++ ending ++ ['\'']

/-- A number in hexadecimal digits, so many of them at least. -/
def hexDigits (width n : Nat) : List Char :=
  let digits := (Nat.toDigits 16 n).map Char.toUpper
  List.replicate (width - digits.length) '0' ++ digits

/-- The escapes that are used in writing. -/
def writtenEscapes : List (Char × Char) := [
  ('\x00', '0'), ('\x07', 'a'), ('\x08', 'b'), ('\t', 't'), ('\n', 'n'), ('\x0b', 'v'), ('\x0c', 'f'),
  ('\r', 'r'), ('\x1b', 'e'), ('"', '"'), ('\\', '\\'), ('\u0085', 'N'), ('\u00a0', '_'),
  ('\u2028', 'L'), ('\u2029', 'P')]

/-- A character between double quotes. -/
def doubleQuotedChar (c : Char) : List Char :=
  if isPrintable c && !isBreak c && c ≠ '"' && c ≠ '\\' then [c]
  else
    match writtenEscapes.lookup c with
    | some e => ['\\', e]
    | none =>
      let n := c.toNat
      if n ≤ 0xff then '\\' :: 'x' :: hexDigits 2 n
      else if n ≤ 0xffff then '\\' :: 'u' :: hexDigits 4 n
      else '\\' :: 'U' :: hexDigits 8 n

/-- The sign for the line ends behind a literal text. -/
def tailSign (cs : List Char) : List Char :=
  match cs.reverse with
  | c :: rest => if !isBreak c then ['-'] else if rest.head?.all isBreak then ['+'] else []
  | [] => ['-']

/-- A text as literal lines. -/
def literalLines (indent : Nat) (cs : List Char) : List Char :=
  let hint := if cs.head?.any (fun c => c = ' ' || isBreak c) then ['2'] else []
  '|' :: hint ++ tailSign cs ++ '\n' :: indented indent (fun c => [c]) true cs

/-- A text in its style, to the end of its last line. -/
def writtenText (indent : Nat) (s : String) : List Char :=
  let cs := s.toList
  match styleOf s with
  | .plain => cs ++ ['\n']
  | .singleQuoted => singleQuotes indent cs ++ ['\n']
  | .literal | .folded =>
    literalLines indent cs ++ if cs.getLast?.any isBreak then [] else ['\n']
  | .doubleQuoted => '"' :: cs.flatMap doubleQuotedChar ++ ['"', '\n']

/-! ### Trees -/

mutual

/-- What stands behind the name of a field. -/
def Tree.afterName (indent : Nat) : Tree → List Char
  | .word s => ' ' :: s.toList ++ ['\n']
  | .text s => ' ' :: writtenText (indent + 2) s
  | .list [] => " []\n".toList
  | .list items => '\n' :: Tree.items indent true items
  | .fields [] => " \x7b\x7d\n".toList
  | .fields entries => '\n' :: Tree.entries (indent + 2) true entries

/-- What stands behind the sign of an item. -/
def Tree.afterSign (indent : Nat) : Tree → List Char
  | .word s => s.toList ++ ['\n']
  | .text s => writtenText (indent + 2) s
  | .list [] => "[]\n".toList
  | .list items => Tree.items (indent + 2) false items
  | .fields [] => "\x7b\x7d\n".toList
  | .fields entries => Tree.entries (indent + 2) false entries

/-- The items of a list, the first one at the start of a line if `fresh` says so. -/
def Tree.items (indent : Nat) (fresh : Bool) : List Tree → List Char
  | [] => []
  | t :: rest =>
    (if fresh then pad indent else []) ++ '-' :: ' ' :: t.afterSign indent ++ Tree.items indent true rest

/-- The fields, the first one at the start of a line if `fresh` says so. -/
def Tree.entries (indent : Nat) (fresh : Bool) : List (String × Tree) → List Char
  | [] => []
  | (name, t) :: rest =>
    (if fresh then pad indent else []) ++ name.toList ++ ':' :: t.afterName indent
      ++ Tree.entries indent true rest

end

/-- A tree as a document. -/
def Tree.written (t : Tree) : String :=
  String.ofList (match t with
    | .word s => s.toList ++ ['\n']
    | .text s => writtenText 2 s
    | .list [] => "[]\n".toList
    | .list items => Tree.items 0 true items
    | .fields [] => "\x7b\x7d\n".toList
    | .fields entries => Tree.entries 0 true entries)

end KeyConsole.Yaml
