/-!
# Decimal.Reading: numbers from text

Integers of 64 bits and floats are read from decimal text, each failure with its cause.
-/

namespace KeyConsole.Decimal

/-- The digit a character stands for. -/
def digit? (c : Char) : Option Nat :=
  if '0' ≤ c ∧ c ≤ '9' then some (c.toNat - '0'.toNat) else none

/-- The number, if it fits in 64 bits. -/
def fit? (n : Int) : Option Int64 :=
  if -Int.pow 2 63 ≤ n ∧ n < Int.pow 2 63 then some (Int64.ofInt n) else none

/-- Why a text is no integer. -/
inductive IntFault where
  | empty
  | badDigit
  | tooLarge
  | tooSmall
  deriving DecidableEq, Repr

namespace IntFault

/-- The cause in words. -/
def message : IntFault → String
  | empty => "cannot parse integer from empty string"
  | badDigit => "invalid digit found in string"
  | tooLarge => "number too large to fit in target type"
  | tooSmall => "number too small to fit in target type"

end IntFault

/-- Digits read from the left onto a running number; the first fault wins, and of two faults at one
digit the digit's own. -/
def readDigits (negative : Bool) : List Char → Int64 → Except IntFault Int64
  | [], n => .ok n
  | c :: cs, n =>
    match digit? c with
    | none => .error .badDigit
    | some d =>
      match fit? (if negative then n.toInt * 10 - d else n.toInt * 10 + d) with
      | none => .error (if negative then .tooSmall else .tooLarge)
      | some m => readDigits negative cs m

/-- An integer with an optional sign. -/
def readInt (cs : List Char) : Except IntFault Int64 :=
  match cs with
  | [] => .error .empty
  | '+' :: rest => if rest.isEmpty then .error .badDigit else readDigits false rest 0
  | '-' :: rest => if rest.isEmpty then .error .badDigit else readDigits true rest 0
  | _ => readDigits false cs 0

/-- Why a text is no float. -/
inductive FloatFault where
  | empty
  | invalid
  deriving DecidableEq, Repr

namespace FloatFault

/-- The cause in words. -/
def message : FloatFault → String
  | empty => "cannot parse float from empty string"
  | invalid => "invalid float literal"

end FloatFault

/-- The digits at the front of a text, and the rest. -/
def spanDigits (cs : List Char) : List Char × List Char := cs.span fun c => (digit? c).isSome

/-- The number that a list of digits stands for. -/
def natOfDigits (cs : List Char) : Nat :=
  cs.foldl (fun n c => n * 10 + (digit? c).getD 0) 0

/-- An exponent after its mark: an optional sign and at least one digit, and nothing else. -/
def readExponent? (cs : List Char) : Option Int :=
  let (negative, cs) : Bool × List Char :=
    match cs with
    | '+' :: rest => (false, rest)
    | '-' :: rest => (true, rest)
    | _ => (false, cs)
  if cs.isEmpty || !cs.all (fun c => (digit? c).isSome) then none
  else some (if negative then -(natOfDigits cs : Int) else natOfDigits cs)

/-- The float nearest to `digits · 10^exponent`.  Numbers far outside the range of floats are zero or
infinite by their first digit's place alone. -/
def nearestFloat (digits : Nat) (exponent : Int) : Float :=
  let place : Int := (Nat.toDigits 10 digits).length + exponent
  if digits = 0 || place < -400 then 0.0
  else if place > 400 then 1.0 / 0.0
  else Float.ofScientific digits (exponent < 0) exponent.natAbs

/-- A float without sign: infinity or no number by name, or digits with an optional point and exponent. -/
def readMagnitude? (cs : List Char) : Option Float :=
  let name := cs.map Char.toLower
  if name = "inf".toList || name = "infinity".toList then some (1.0 / 0.0)
  else if name = "nan".toList then some (0.0 / 0.0)
  else
    let (whole, rest) := spanDigits cs
    let (part, rest) :=
      match rest with
      | '.' :: after => spanDigits after
      | _ => ([], rest)
    if whole.isEmpty && part.isEmpty then none
    else
      let digits := natOfDigits (whole ++ part)
      match rest with
      | [] => some (nearestFloat digits (-(part.length : Int)))
      | mark :: after =>
        if mark = 'e' || mark = 'E' then
          (readExponent? after).map fun e => nearestFloat digits (e - part.length)
        else none

/-- A float with an optional sign. -/
def readFloat (cs : List Char) : Except FloatFault Float :=
  match cs with
  | [] => .error .empty
  | '+' :: rest => (readMagnitude? rest).elim (.error .invalid) .ok
  | '-' :: rest => (readMagnitude? rest).elim (.error .invalid) fun x => .ok (-x)
  | _ => (readMagnitude? cs).elim (.error .invalid) .ok

end KeyConsole.Decimal
