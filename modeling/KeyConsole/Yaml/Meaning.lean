import KeyConsole.Decimal.Reading
import KeyConsole.Yaml.Quotes

/-!
# Yaml.Meaning: what plain texts can mean

A plain text may stand for nothing, for a truth value or for a number.  Digits behind a leading zero are no
number but a text.
-/

namespace KeyConsole.Yaml

/-- The texts that stand for nothing. -/
def isNull (s : String) : Bool := s = "~" || s = "null" || s = "Null" || s = "NULL"

/-- The truth value that a text stands for. -/
def flag? (s : String) : Option Bool :=
  if s = "true" || s = "True" || s = "TRUE" then some true
  else if s = "false" || s = "False" || s = "FALSE" then some false
  else none

/-- Digits behind a leading zero, with an optional sign. -/
def isPaddedDigits (cs : List Char) : Bool :=
  let digits := match cs with
    | '-' :: rest | '+' :: rest => rest
    | _ => cs
  digits.length > 1 && digits.head? = some '0' && digits.all Char.isDigit

/-- The digit of a number in a base. -/
def digitBelow? (base : Nat) (c : Char) : Option Nat := (hexDigit? c).filter (· < base)

/-- The number that one or more digits in a base stand for. -/
def digits? (base : Nat) (cs : List Char) : Option Nat :=
  if cs.isEmpty then none else cs.foldlM (fun n c => (digitBelow? base c).map (n * base + ·)) 0

/-- The number behind the sign of its base. -/
def based? : List Char → Option Nat
  | '0' :: 'x' :: rest => digits? 16 rest
  | '0' :: 'o' :: rest => digits? 8 rest
  | '0' :: 'b' :: rest => digits? 2 rest
  | _ => none

/-- A number without sign. -/
def unsigned? (cs : List Char) : Option Nat :=
  based? cs <|> if isPaddedDigits cs then none else digits? 10 cs

/-- The natural number that a text stands for, with an optional plus sign. -/
def natural? (s : String) : Option Nat :=
  match s.toList with
  | '+' :: rest => unsigned? rest
  | cs => unsigned? cs

/-- The negative number that a text stands for, or minus zero. -/
def negative? (s : String) : Option Int :=
  match s.toList with
  | '-' :: rest => (unsigned? rest).map fun n => -n
  | _ => none

/-- The integer that a text stands for. -/
def integer? (s : String) : Option Int := ((natural? s).map Int.ofNat) <|> negative? s

/-- The text stands for a float. -/
def isFloat (s : String) : Bool :=
  let cs := s.toList
  let digits := match cs with
    | '+' :: rest => rest
    | _ => cs
  [".inf", ".Inf", ".INF"].contains (String.ofList digits)
    || ["-.inf", "-.Inf", "-.INF", ".nan", ".NaN", ".NAN"].contains s
    || (!(cs.length > digits.length && (digits.head? = some '+' || digits.head? = some '-'))
      && match Decimal.readFloat digits with
        | .ok x => x.isFinite
        | .error _ => false)

/-- A plain text does not stand for itself. -/
def isAmbiguous (s : String) : Bool :=
  s.isEmpty || isNull s || (flag? s).isSome || isPaddedDigits s.toList
    || (natural? s).any (· < Nat.pow 2 128) || (negative? s).any (-Int.pow 2 127 ≤ ·) || isFloat s

end KeyConsole.Yaml
