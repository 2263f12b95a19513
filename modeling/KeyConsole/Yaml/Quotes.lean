import KeyConsole.Yaml.Gap

/-!
# Yaml.Quotes: texts in quotes

Between single quotes a quote is written twice and nothing else is special.  Between double quotes a
backslash begins an escape, and one at the end of a line joins it with the next.
-/

namespace KeyConsole.Yaml

/-- The escapes of two characters. -/
def shortEscapes : List (Char × Char) := [
  ('0', '\x00'), ('a', '\x07'), ('b', '\x08'), ('t', '\t'), ('\t', '\t'), ('n', '\n'), ('v', '\x0b'),
  ('f', '\x0c'), ('r', '\r'), ('e', '\x1b'), (' ', ' '), ('"', '"'), ('/', '/'), ('\\', '\\'),
  ('N', '\u0085'), ('_', '\u00a0'), ('L', '\u2028'), ('P', '\u2029')]

/-- The number of hexadecimal digits behind the letter of a long escape. -/
def longEscapes : List (Char × Nat) := [('x', 2), ('u', 4), ('U', 8)]

/-- The value of a hexadecimal digit. -/
def hexDigit? (c : Char) : Option Nat :=
  let n := c.toNat
  if '0' ≤ c ∧ c ≤ '9' then some (n - '0'.toNat)
  else if 'a' ≤ c ∧ c ≤ 'f' then some (n - 'a'.toNat + 10)
  else if 'A' ≤ c ∧ c ≤ 'F' then some (n - 'A'.toNat + 10)
  else none

/-- The number that hexadecimal digits stand for. -/
def hexNumber? (digits : List Char) : Option Nat :=
  digits.foldlM (fun n c => (hexDigit? c).map (n * 16 + ·)) 0

/-- The character with a code point. -/
def charOf? (n : Nat) : Option Char := if n.isValidChar then some (Char.ofNat n) else none

/-- The character that an escape stands for, and the length of the escape without its backslash. -/
def escaped? : List Char → Option (Char × Nat)
  | [] => none
  | c :: rest =>
    match shortEscapes.lookup c, longEscapes.lookup c with
    | some e, _ => some (e, 1)
    | none, some n =>
      let digits := rest.take n
      if digits.length < n then none
      else ((hexNumber? digits).bind charOf?).map (·, n + 1)
    | none, none => none

/-- Go on reading a quoted text, for at most as many steps as the number says.  A line of it may not be a
document marker. -/
def quotedFrom (double : Bool) : Nat → Spot → List Char → Option (String × Spot)
  | 0, _, _ => none
  | fuel + 1, s, text =>
    let across (g : Gap) (s : Spot) : Option (String × Spot) :=
      let gap := s.run isGap
      let s := s.skip gap.length
      if s.atDocumentMarker then none else quotedFrom double fuel s (withGap text (gap.foldl Gap.add g))
    match s.rest with
    | [] => none
    | c :: rest =>
      if isGap c then across {} s
      else if double then
        if c = '"' then some (String.ofList text.reverse, s.next)
        else if c = '\\' then
          if rest.head?.any isBreak then across .escaped (s.skip 2)
          else do
            let (e, n) ← escaped? rest
            quotedFrom double fuel (s.skip (n + 1)) (e :: text)
        else quotedFrom double fuel s.next (c :: text)
      else if c = '\'' then
        if rest.head? = some '\'' then quotedFrom double fuel (s.skip 2) ('\'' :: text)
        else some (String.ofList text.reverse, s.next)
      else quotedFrom double fuel s.next (c :: text)

/-- Read a text in quotes, from behind the first quote; `bound` is more than the number of characters that
are left. -/
def quoted? (bound : Nat) (double : Bool) (s : Spot) : Option (String × Spot) := quotedFrom double bound s []

end KeyConsole.Yaml
