/-!
# Decimal.IntText: integers as text
-/

namespace KeyConsole.Decimal

/-- The decimal digits of a number. -/
def digitsOf (n : Nat) : List Char := Nat.toDigits 10 n

/-- A natural number as text. -/
def natText (n : Nat) : String := String.ofList (digitsOf n)

/-- An integer as text: digits, after a minus sign if it is negative. -/
def intText (n : Int) : String :=
  if n < 0 then String.ofList ('-' :: digitsOf n.natAbs) else natText n.natAbs

end KeyConsole.Decimal
