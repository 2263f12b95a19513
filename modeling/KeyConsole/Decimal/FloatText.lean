import KeyConsole.Decimal.IntText
import KeyConsole.Decimal.Shortest

/-!
# Decimal.FloatText: floats as text

A float is written in positional notation with the fewest digits that read back: no exponent, no point
for whole numbers, `-0` for the negative zero, and `NaN`, `inf` and `-inf` for what is no number.
-/

namespace KeyConsole.Decimal

/-- A float taken apart. -/
inductive FloatParts where
  | nan
  | infinite (negative : Bool)
  | zero (negative : Bool)
  | finite (negative : Bool) (magnitude : Binary)
  deriving DecidableEq, Repr

/-- The parts of the double-precision number with these bits. -/
def FloatParts.ofBits (bits : UInt64) : FloatParts :=
  let word : Nat := bits.toNat
  let negative : Bool := word / Nat.pow 2 63 % 2 == 1
  let biased : Nat := word / Nat.pow 2 52 % Nat.pow 2 11
  let fraction : Nat := word % Nat.pow 2 52
  if biased = 2047 then if fraction = 0 then .infinite negative else .nan
  else if biased = 0 then
    if fraction = 0 then .zero negative else .finite negative ⟨fraction, -1074, false⟩
  else .finite negative ⟨fraction + Nat.pow 2 52, (biased : Int) - 1075, fraction == 0 && biased > 1⟩

/-- A decimal number in positional notation. -/
def Figure.positional (d : Figure) : List Char :=
  match d.exponent with
  | .ofNat e => digitsOf (d.digits * Nat.pow 10 e)
  | .negSucc e =>
    let places := e + 1
    let whole := d.digits / Nat.pow 10 places
    let part := digitsOf (d.digits % Nat.pow 10 places)
    let part := List.replicate (places - part.length) '0' ++ part
    let part := (part.reverse.dropWhile (· = '0')).reverse
    if part.isEmpty then digitsOf whole else digitsOf whole ++ '.' :: part

/-- A float as text. -/
def FloatParts.text : FloatParts → String
  | .nan => "NaN"
  | .infinite negative => if negative then "-inf" else "inf"
  | .zero negative => if negative then "-0" else "0"
  | .finite negative b =>
    let digits := String.ofList b.shortest.positional
    if negative then "-" ++ digits else digits

/-- A float as text. -/
def floatText (x : Float) : String := (FloatParts.ofBits x.toBits).text

/-- The whole part of a float, toward zero; nothing if it is no number. -/
def wholePart? (x : Float) : Option Int :=
  match FloatParts.ofBits x.toBits with
  | .nan => none
  | .infinite _ => none
  | .zero _ => some 0
  | .finite negative b =>
    let n : Int := b.significand * Int.pow 2 b.exponent.toNat / Int.pow 2 (-b.exponent).toNat
    some (if negative then -n else n)

end KeyConsole.Decimal
