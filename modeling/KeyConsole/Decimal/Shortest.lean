/-!
# Decimal.Shortest: the fewest decimal digits that read back

A finite binary number is `m · 2^q`.  The reals that round to it form an interval around it, whose
ends belong to it exactly if `m` is even.  `shortest` finds a decimal number in this interval with as
few digits as possible and, of those, the nearest.
-/

namespace KeyConsole.Decimal

/-- The number `digits · 10^exponent`. -/
structure Figure where
  digits : Nat
  exponent : Int
  deriving DecidableEq, Repr

/-- The positive number `significand · 2^exponent`; `narrow` says that the next smaller number of its
format is only half as far away as the next larger one. -/
structure Binary where
  significand : Nat
  exponent : Int
  narrow : Bool
  deriving DecidableEq, Repr

namespace Binary

/-- Four times the number, and the ends of its rounding interval times four, in units of
`2^exponent`. -/
def scaled (b : Binary) : Nat := 4 * b.significand

@[inherit_doc scaled]
def scaledLow (b : Binary) : Nat := b.scaled - if b.narrow then 1 else 2

@[inherit_doc scaled]
def scaledHigh (b : Binary) : Nat := b.scaled + 2

/-- A common denominator for quarters of the number's unit and the powers of ten with this exponent:
`x` quarters are worth `x * quarterWeight`, and `d` tens `d * tenWeight`. -/
def quarterWeight (b : Binary) (e : Int) : Nat := Nat.pow 2 (b.exponent - 2).toNat * Nat.pow 10 (-e).toNat

@[inherit_doc quarterWeight]
def tenWeight (b : Binary) (e : Int) : Nat := Nat.pow 2 (2 - b.exponent).toNat * Nat.pow 10 e.toNat

/-- Whether `d · 10^e` rounds to the number. -/
def admits (b : Binary) (d : Nat) (e : Int) : Bool :=
  let x := d * b.tenWeight e
  let low := b.scaledLow * b.quarterWeight e
  let high := b.scaledHigh * b.quarterWeight e
  if b.significand % 2 = 0 then low ≤ x && x ≤ high else low < x && x < high

/-- The best multiple of `10^e` that rounds to the number: the nearer of the two around it, and the
upper one if they are equally near. -/
def onGrid? (b : Binary) (e : Int) : Option Nat :=
  let value := b.scaled * b.quarterWeight e
  let unit := b.tenWeight e
  let below := value / unit
  let above := below + 1
  let upper := value - below * unit ≥ above * unit - value
  match b.admits below e, b.admits above e with
  | true, true => some (if upper then above else below)
  | true, false => some below
  | false, true => some above
  | false, false => none

/-- A power of ten above the number. -/
def ceilingExponent (b : Binary) : Int :=
  (((b.significand.log2 : Int) + 1 + b.exponent) * 30103).fdiv 100000 + 2

/-- Try the grids of `10^e`, `10^(e-1)`, … and take the first that holds a number of the interval. -/
def search (b : Binary) : Nat → Int → Figure
  | 0, e => ⟨b.scaled * b.quarterWeight e / b.tenWeight e, e⟩
  | tries + 1, e =>
    match b.onGrid? e with
    | some d => ⟨d, e⟩
    | none => search b tries (e - 1)

/-- A decimal number with the fewest digits among those that round to `b`, and the nearest of them. -/
def shortest (b : Binary) : Figure := b.search 24 b.ceilingExponent

end Binary

end KeyConsole.Decimal
