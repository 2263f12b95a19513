import KeyConsole.Console.Builtin.Numbers

/-!
# Console.Builtin.Lists: commands on lists
-/

namespace KeyConsole.Console.Builtin

open Decimal (fit?)

/-- The items of the piped list. -/
def pipedList (c : Call) : Eval (List Value) :=
  match c.piped with
  | .list items => return items
  | v => Call.raise ("expected a list to be piped in, got " ++ v.type.name)

/-- The longest list that counting makes. -/
def longestCount : Nat := 1000000

/-- The numbers from 1 to `n`. -/
def countingUp (n : Nat) : List Value := (List.range' 1 n).map fun k => .int (Int64.ofNat k)

/-- The sum of integers, added from the left onto a total. -/
def sumInts : List Value → Int64 → Eval Int64
  | [], total => return total
  | .int n :: rest, total => do
    let total ← orRaise (add? total n) "sum overflowed"
    sumInts rest total
  | v :: _, _ => Call.raise ("not an int: " ++ v.toText)

/-- The sum of the floats of a list, added from the left onto the negative zero. -/
def sumFloats (items : List Value) : Float := (items.filterMap Value.float?).foldl (· + ·) (-0.0)

/-- Run a block on every item; `done` holds the results so far, the last in front. -/
def mapItems (run : Value → Eval Value) : List Value → List Value → Eval (List Value)
  | [], done => return done.reverse
  | v :: rest, done => do mapItems run rest ((← run v) :: done)

/-- The items that a block answers with `wanted`; `done` holds those so far, the last in front. -/
def keepItems (run : Value → Eval Value) (wanted : Bool) : List Value → List Value → Eval (List Value)
  | [], done => return done.reverse
  | v :: rest, done => do
    let answer ← run v
    keepItems run wanted rest (if answer.bool? = some wanted then v :: done else done)

/-- The type of a list of what the first block returns. -/
def listOfFirstBlock (facts : TypeFacts) : ValueType := .list (facts.blocks.head?.getD .any)

/-- The list commands. -/
def lists : List Command := [
  { name := "iota"
    description := "Counts from 1 up to the piped number"
    signatures := [
      onInt none (.list .int) fun n => do
        if n.toInt < 0 then
          Call.raise ("can't count up to a negative number (" ++ Decimal.intText n.toInt ++ ")")
        else if n.toInt > longestCount then
          Call.raise ("can't count past " ++ Decimal.natText longestCount ++ " (asked for "
            ++ Decimal.intText n.toInt ++ ")")
        else return .list (countingUp n.toInt.toNat)] },
  { name := "sum"
    description := "Adds up a list of numbers"
    signatures := [
      { piped := some (.list .int)
        returns := .fixed .int
        run := fun c => do
          let items ← pipedList c
          return .int (← sumInts items 0) },
      { piped := some (.list .float)
        returns := .fixed .float
        run := fun c => do return .float (sumFloats (← pipedList c)) }] },
  { name := "count"
    description := "Number of items in the piped list"
    signatures := [{
      piped := some (.list .any)
      returns := .fixed .int
      run := fun c => do
        let items ← pipedList c
        return .int (← orRaise (fit? items.length) "out of range integral type conversion attempted") }] },
  { name := "take"
    description := "The first n items of the piped list"
    signatures := [{
      piped := some (.list .any)
      parameters := [⟨"amount", .value .int⟩]
      returns := .piped
      run := fun c => do
        let n ← c.int 0
        return .list ((← pipedList c).take n.toInt.toNat) }] },
  { name := "map"
    description := "Runs a block on every item of the piped list"
    signatures := [{
      piped := some (.list .any)
      parameters := [⟨"mapper", .block .element none⟩]
      returns := .computed listOfFirstBlock
      run := fun c => do
        let items ← pipedList c
        return .list (← mapItems (fun v => c.runBlock 0 (some v)) items []) }] },
  { name := "where"
    description := "Keeps the items of the piped list the block returns true for"
    signatures := [{
      piped := some (.list .any)
      parameters := [⟨"check", .block .element (some .bool)⟩]
      returns := .piped
      run := fun c => do
        let items ← pipedList c
        return .list (← keepItems (fun v => c.runBlock 0 (some v)) (!c.inverted) items []) }] }]

end KeyConsole.Console.Builtin
