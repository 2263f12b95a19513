/-!
# Console.Fuzzy: how well a few typed letters fit a name

The letters have to occur in the name in their order, in any letter case.  A match scores for every
letter, more at the start of a word and in a row, and loses for gaps.  `score?` takes the best placement
that begins at the first place of the first letter.
-/

namespace KeyConsole.Console.Fuzzy

/-- The kinds of characters that tell where words begin. -/
inductive Kind where
  | lower
  | upper
  | number
  | blank
  | delimiter
  | other
  deriving DecidableEq, Repr

/-- The kind of a character. -/
def Kind.of (c : Char) : Kind :=
  if c.isLower then lower
  else if c.isUpper then upper
  else if c.isDigit then number
  else if c.isWhitespace || c = '\x0b' || c = '\x0c' then blank
  else if c = '/' || c = ',' || c = ':' || c = ';' || c = '|' then delimiter
  else other

/-- What a matched character earns for its place, given the kind of the character before it. -/
def placeBonus (before here : Kind) : Nat :=
  let inWord := here = .lower || here = .upper || here = .number
  if inWord && before = .blank then 10
  else if inWord && before = .delimiter then 9
  else if inWord && before = .other then 8
  else if (before = .lower && here = .upper) || (before ≠ .number && here = .number) then 5
  else if here = .blank then 10
  else if here = .other then 8
  else 0

/-- A character of the name in small letters, with its bonus. -/
structure Place where
  letter : Char
  bonus : Nat
  deriving DecidableEq, Repr

/-- The places of a name.  A name begins as if behind a blank. -/
def places (before : Kind) : List Char → List Place
  | [] => []
  | c :: rest => ⟨c.toLower, placeBonus before (.of c)⟩ :: places (.of c) rest

/-! ### Scores -/

/-- What a matched letter earns by itself. -/
def matchScore : Nat := 16

/-- The least bonus of a letter that follows a matched one. -/
def rowBonus : Nat := 4

/-- The bonus from which on a place counts as the start of a word. -/
def boundaryBonus : Nat := 8

/-- What the first character of a gap costs; each further one costs 1. -/
def gapStart : Nat := 3

/-- Where the placing of letters one after the other has got to. -/
structure Progress where
  score : Nat
  /-- The best bonus since the letters stand in a row. -/
  best : Nat
  /-- The place before was matched. -/
  inRow : Bool

/-- The score of the letters placed greedily. -/
def greedyScore : List Char → List Place → Progress → Nat
  | _, [], p => p.score
  | letters, place :: rest, p =>
    if letters.head? = some place.letter then
      let best := if p.inRow then
          if place.bonus ≥ boundaryBonus && place.bonus > p.best then place.bonus else p.best
        else place.bonus
      let bonus := if p.inRow then max (max place.bonus best) rowBonus else place.bonus
      greedyScore letters.tail rest ⟨p.score + matchScore + bonus, best, true⟩
    else greedyScore letters rest ⟨p.score - (if p.inRow then gapStart else 1), p.best, false⟩

/-- The score of letters placed greedily from the first place on, which has the first letter. -/
def rowScore (letters : List Char) (ps : List Place) : Nat :=
  match ps with
  | [] => 0
  | p :: rest => greedyScore letters.tail rest ⟨matchScore + 2 * p.bonus, p.bonus, true⟩

/-- The best placement that ends at some place. -/
structure Ending where
  score : Nat
  /-- The best bonus since the letters stand in a row. -/
  best : Nat
  deriving DecidableEq, Repr

/-- For some letter, at each place: the best placement that ends there with the letter, and the best score
of those that end before, less the gap. -/
abbrev Row := List (Option Ending × Nat)

/-- A row from its endings. -/
def Row.ofEndings (gap : Nat) : List (Option Ending) → Row
  | [] => []
  | e :: rest =>
    (e, gap) :: Row.ofEndings (max (e.elim 0 Ending.score - gapStart) (gap - 1)) rest

/-- The row of the first letter. -/
def firstRow (letter : Char) (ps : List Place) : Row :=
  .ofEndings 0 (ps.map fun p =>
    if p.letter = letter then some ⟨matchScore + 2 * p.bonus, p.bonus⟩ else none)

/-- The best placement that ends at a place, given the row of the letter before at the place before. -/
def extended (before : Option Ending × Nat) (p : Place) : Ending :=
  let apart : Ending := ⟨before.2 + p.bonus + matchScore, p.bonus⟩
  match before.1 with
  | none => apart
  | some e =>
    let best := max e.best rowBonus
    let best := if p.bonus ≥ boundaryBonus && p.bonus > best then p.bonus else best
    let joined := e.score + max best p.bonus
    if joined > before.2 + p.bonus then ⟨joined + matchScore, best⟩ else apart

/-- The row of a further letter, which may not stand before its greedy place `start`. -/
def nextRow (letter : Char) (start : Nat) (ps : List Place) (previous : Row) : Row :=
  .ofEndings 0 ((((none, 0) :: previous).zip ps).zipIdx.map fun ((before, p), i) =>
    if start ≤ i && p.letter = letter then some (extended before p) else none)

/-- The greedy places of letters. -/
def greedyPlaces? : List Char → Nat → List Place → Option (List Nat)
  | [], _, _ => some []
  | _ :: _, _, [] => none
  | l :: letters, i, p :: rest =>
    if p.letter = l then (greedyPlaces? letters (i + 1) rest).map (i :: ·)
    else greedyPlaces? (l :: letters) (i + 1) rest

/-- The rows of all letters, one after the other; the last one is the answer. -/
def lastRow (ps : List Place) : List (Char × Nat) → Row → Row
  | [], row => row
  | (letter, start) :: rest, row => lastRow ps rest (nextRow letter start ps row)

/-- The best score in a row. -/
def Row.best (row : Row) : Nat := row.foldl (fun n e => max n (e.1.elim 0 Ending.score)) 0

/-- The score of letters against places, if the letters occur there in their order. -/
def placesScore? (letters : List Char) (ps : List Place) : Option Nat :=
  match letters with
  | [] => some 0
  | [l] =>
    ((ps.filter (·.letter = l)).map fun p => matchScore + 2 * p.bonus).max?
  | l :: more =>
    if letters.length = ps.length then
      if ps.map (·.letter) = letters then some (rowScore letters ps) else none
    else do
      let found ← greedyPlaces? letters 0 ps
      let start := found.head?.getD 0
      let greedyStop := found.getLast?.getD 0 + 1
      let last := letters.getLast?.getD l
      let further := ((ps.drop greedyStop).reverse.dropWhile (·.letter ≠ last)).length
      let window := (ps.drop start).take (greedyStop + further - start)
      if window.length = letters.length then some (rowScore letters window)
      else
        let starts := (found.map (· - start)).tail
        some (lastRow window (more.zip starts) (firstRow l window)).best

/-- How well typed letters fit a name; nothing if they do not. -/
def score? (typed name : String) : Option Nat :=
  placesScore? (typed.toList.map Char.toLower) (places .blank name.toList)

end KeyConsole.Console.Fuzzy
