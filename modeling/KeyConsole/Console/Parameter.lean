import KeyConsole.Console.ValueType

/-!
# Console.Parameter: what a command expects behind its name
-/

namespace KeyConsole.Console

/-- What a block argument gets piped in: nothing, the value piped to the command, or one item of the piped
list at a time. -/
inductive Feed where
  | nothing
  | piped
  | element
  deriving DecidableEq, Repr

/-- The type piped into a block, given the type piped to its command. -/
def Feed.type (feed : Feed) (piped : Option ValueType) : Option ValueType :=
  match feed with
  | nothing => none
  | .piped => piped
  | element => some ((piped.bind ValueType.element?).getD .any)

/-- How an argument is written and used. -/
inductive ParameterKind where
  /-- A literal, a `$variable` or a block with a value of this type. -/
  | value (type : ValueType)
  /-- A block that the command runs itself. -/
  | block (feed : Feed) (output : Option ValueType)
  /-- A `$variable` that the command sets to the piped value. -/
  | assign
  /-- A `$variable` that the command reads. -/
  | variable
  deriving DecidableEq, Repr

/-- A parameter of a command. -/
structure Parameter where
  name : String
  kind : ParameterKind
  deriving DecidableEq, Repr

namespace Parameter

/-- What the argument has to be, in words. -/
def expected (p : Parameter) : String :=
  match p.kind with
  | .value t => t.name
  | .block _ (some t) => "block -> " ++ t.name
  | .block _ none => "block"
  | .assign => "$variable"
  | .variable => "$variable"

/-- Name and expectation, as shown while typing. -/
def hint (p : Parameter) : String := "<" ++ p.name ++ ": " ++ p.expected ++ ">"

end Parameter

end KeyConsole.Console
