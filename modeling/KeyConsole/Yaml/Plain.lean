import KeyConsole.Yaml.Gap

/-!
# Yaml.Plain: texts without quotes

A plain text is made of words, with gaps between them.  Outside of brackets it goes on as long as its lines
are indented.  A colon before a gap and a hash sign after one end it, and within brackets the brackets and
the comma.
-/

namespace KeyConsole.Yaml

/-- A bracket or a comma, which ends a plain text within brackets. -/
def isFlowMark (c : Char) : Bool := c = ',' || c = '[' || c = ']' || c = '{' || c = '}'

/-- The word at the front of a text; nothing if it has a colon where none may stand. -/
def word? (inFlow : Bool) : List Char → Option (List Char)
  | [] => some []
  | c :: rest =>
    let next := rest.head?
    if isGap c then some []
    else if inFlow && c = ':' && next.any (fun n => isFlowMark n || n = '?') then none
    else if c = ':' && isGapOrEnd next then some []
    else if inFlow && isFlowMark c then some []
    else (word? inFlow rest).map (c :: ·)

/-- Read one character of a gap.  A tab may not stand where the indentation of a line is expected. -/
def gapStep (indent : Int) (place : Spot × Gap) (c : Char) : Option (Spot × Gap) :=
  let (s, g) := place
  if g.broken && s.column < indent && c = '\t' then none else some (s.next, g.add c)

/-- A text without quotes and the spot behind it. -/
structure PlainText where
  text : String
  spot : Spot
  /-- The spot is on a later line than the end of the text. -/
  lineEnded : Bool
  deriving DecidableEq, Repr

/-- Go on reading a plain text behind a gap, for at most as many words as the number says. -/
def plainFrom (inFlow : Bool) (indent : Int) : Nat → Spot → Gap → List Char → Option PlainText
  | 0, _, _, _ => none
  | fuel + 1, s, g, text =>
    let finish (s : Spot) (g : Gap) (text : List Char) : Option PlainText :=
      some ⟨String.ofList text.reverse, s, g.broken⟩
    if s.atDocumentMarker || s.peek = some '#' then finish s g text
    else do
      let word ← word? inFlow s.rest
      let s := s.skip word.length
      let (text, g) := if word.isEmpty then (text, g) else (word.reverseAux (withGap text g), {})
      let gap := s.run isGap
      if gap.isEmpty then finish s g text
      else
        let (s, g) ← gap.foldlM (gapStep indent) (s, g)
        if !inFlow && s.column < indent then finish s g text else plainFrom inFlow indent fuel s g text

/-- Read a plain text whose lines are indented as far as `indent` says; `bound` is more than the number of
characters that are left. -/
def plain? (bound : Nat) (inFlow : Bool) (indent : Int) (s : Spot) : Option PlainText :=
  plainFrom inFlow indent bound s {} []

end KeyConsole.Yaml
