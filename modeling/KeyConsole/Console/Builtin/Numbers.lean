import KeyConsole.Console.Directory
import KeyConsole.Decimal.Reading
import KeyConsole.Text.Blank

/-!
# Console.Builtin.Numbers: literals, arithmetic and conversions

Integers are of 64 bits.  An operation whose exact result does not fit is an error; nothing wraps.
-/

namespace KeyConsole.Console.Builtin

open Decimal (fit?)

/-- The piped integer. -/
def pipedInt (c : Call) : Eval Int64 :=
  match c.piped with
  | .int n => return n
  | v => Call.raise ("expected an int to be piped in, got " ++ v.type.name)

/-- The piped float. -/
def pipedFloat (c : Call) : Eval Float :=
  match c.piped with
  | .float x => return x
  | v => Call.raise ("expected a float to be piped in, got " ++ v.type.name)

/-- A result that may not exist. -/
def orRaise {α : Type} (result : Option α) (message : String) : Eval α :=
  match result with
  | some a => return a
  | none => Call.raise message

/-- A command that returns its argument. -/
def literalCommand (name : String) (t : ValueType) (description : String) : Command where
  name
  description
  signatures := [{
    parameters := [⟨"value", .value t⟩]
    returns := .fixed t
    run := fun c => do
      let v ← c.value 0
      if v.type.assignable t then return v
      else Call.raise ("expected " ++ t.name ++ ", got " ++ v.type.name) }]

/-- The literals. -/
def literals : List Command := [
  literalCommand "i" .int "An int literal",
  literalCommand "f" .float "A float literal",
  literalCommand "s" .string "A string literal",
  literalCommand "b" .bool "A bool literal"]

/-! ### Arithmetic -/

/-- The sum, if it fits. -/
def add? (x y : Int64) : Option Int64 := fit? (x.toInt + y.toInt)

/-- The difference, if it fits. -/
def sub? (x y : Int64) : Option Int64 := fit? (x.toInt - y.toInt)

/-- The product, if it fits. -/
def mul? (x y : Int64) : Option Int64 := fit? (x.toInt * y.toInt)

/-- The quotient toward zero, if there is one and it fits. -/
def div? (x y : Int64) : Option Int64 := if y.toInt = 0 then none else fit? (x.toInt.tdiv y.toInt)

/-- The larger of two integers. -/
def larger (x y : Int64) : Int64 := if x.toInt ≤ y.toInt then y else x

/-- The larger of two floats; what is no number does not count. -/
def largerFloat (x y : Float) : Float := if x.isNaN || x < y then y else x

/-- A command on two numbers of the same kind. -/
def arithmetic (name description : String) (onInts : Int64 → Int64 → Option Int64)
    (onFloats : Float → Float → Float) : Command where
  name
  description
  signatures := [
    { piped := some .int
      parameters := [⟨"y", .value .int⟩]
      returns := .fixed .int
      run := fun c => do
        let x ← pipedInt c
        let y ← c.int 0
        let z ← orRaise (onInts x y) ("'" ++ Decimal.intText x.toInt ++ " " ++ name ++ " "
          ++ Decimal.intText y.toInt ++ "' overflowed or divided by zero")
        return .int z },
    { piped := some .float
      parameters := [⟨"y", .value .float⟩]
      returns := .fixed .float
      run := fun c => do
        let x ← pipedFloat c
        let y ← c.float 0
        return .float (onFloats x y) }]

/-- A command on one integer. -/
def onInt (subcommand : Option String) (returns : ValueType) (f : Int64 → Eval Value) :
    Signature where
  subcommand
  piped := some .int
  returns := .fixed returns
  run := fun c => do f (← pipedInt c)

/-- A command on one float. -/
def onFloat (subcommand : Option String) (returns : ValueType) (f : Float → Eval Value) :
    Signature where
  subcommand
  piped := some .float
  returns := .fixed returns
  run := fun c => do f (← pipedFloat c)

/-- The negative of an integer, if it fits. -/
def neg? (x : Int64) : Option Int64 := fit? (-x.toInt)

/-- The size of an integer, if it fits. -/
def abs? (x : Int64) : Option Int64 := fit? x.toInt.natAbs

/-- The number commands. -/
def numbers : List Command := [
  arithmetic "+" "Adds two numbers" add? (· + ·),
  arithmetic "-" "Subtracts two numbers" sub? (· - ·),
  arithmetic "*" "Multiplies two numbers" mul? (· * ·),
  arithmetic "/" "Divides two numbers" div? (· / ·),
  arithmetic "max" "The larger of two numbers" (fun x y => some (larger x y)) largerFloat,
  { name := "even"
    description := "Whether the piped number is even"
    signatures := [{
      piped := some .int
      returns := .fixed .bool
      run := fun c => do
        let x ← pipedInt c
        return .bool ((x.toInt % 2 == 0) != c.inverted) }] },
  { name := "math"
    description := "Unary math operations"
    signatures := [
      onInt (some "neg") .int fun x => do
        return .int (← orRaise (neg? x) ("can't negate " ++ Decimal.intText x.toInt)),
      onFloat (some "neg") .float fun x => return .float (-x),
      onInt (some "abs") .int fun x => do
        return .int (← orRaise (abs? x)
          ("can't take the absolute value of " ++ Decimal.intText x.toInt)),
      onFloat (some "abs") .float fun x => return .float x.abs] }]

/-! ### Conversions -/

/-- A whole number toward zero, at the nearer end of the 64-bit range if it is outside. -/
def clamped (n : Int) : Int64 :=
  if n < -Int.pow 2 63 then Int64.ofInt (-Int.pow 2 63)
  else if n < Int.pow 2 63 then Int64.ofInt n
  else Int64.ofInt (Int.pow 2 63 - 1)

/-- The piped text without the blanks around it, nothing for other values. -/
def pipedText (c : Call) : List Char := (Text.trim (c.piped.string?.getD "")).toList

/-- The conversions. -/
def conversions : List Command := [
  { name := "tostring"
    description := "Converts the piped value to a string"
    conversion := true
    signatures := [{
      piped := some .any
      returns := .fixed .string
      run := fun c => return .string c.piped.toText }] },
  { name := "tofloat"
    description := "Converts the piped value to a float"
    conversion := true
    signatures := [
      onInt none .float fun x => return .float x.toFloat,
      { piped := some .string
        returns := .fixed .float
        run := fun c =>
          match Decimal.readFloat (pipedText c) with
          | .ok x => return .float x
          | .error e => Call.raise e.message }] },
  { name := "toint"
    description := "Converts the piped value to an int, truncating floats"
    conversion := true
    signatures := [
      onFloat none .int fun x => do
        let n ← orRaise (Decimal.wholePart? x) (Decimal.floatText x ++ " has no integer value")
        return .int (clamped n),
      { piped := some .string
        returns := .fixed .int
        run := fun c =>
          match Decimal.readInt (pipedText c) with
          | .ok n => return .int n
          | .error e => Call.raise e.message },
      { piped := some .bool
        returns := .fixed .int
        run := fun c => return .int (if c.piped.bool? = some true then 1 else 0) }] }]

end KeyConsole.Console.Builtin
