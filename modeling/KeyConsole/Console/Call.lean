import KeyConsole.Console.Session

/-!
# Console.Call: what the implementation of a command sees

A call carries the piped value and the arguments, ready to be evaluated.  An implementation answers with a
value or fails; it may fail with a fault of its own, with a message and the causes under it, or because a
block it ran has failed and reported that already.
-/

namespace KeyConsole.Console

/-- A permission looked up in some epoch. -/
structure Verdict where
  epoch : Nat
  permitted : Bool
  deriving DecidableEq, Repr

/-- A place in the source where a command is called, and the types it was read with. -/
structure Site where
  name : String
  subcommand : Option String
  span : Span
  piped : Option ValueType
  returns : ValueType
  deriving DecidableEq, Repr

/-- What becomes of a command when its turn comes, and what it does to the session. -/
inductive Turn where
  | refused (site : Site)
  | started (site : Site) (piped : Value)
  | wrote (line : String)
  | stored (name : String) (v : Value)
  | returned (site : Site) (v : Value)
  | failed (site : Site)

/-- The state while pipelines run: the session, the permissions looked up so far, by the place of the
command in the source and its name, and a journal of what the commands did, the last in front. -/
structure Running where
  session : Session
  verdicts : List ((Nat × String) × Verdict) := []
  journal : List Turn := []

/-- How a command fails. -/
inductive Failure where
  /-- A block has failed, and its faults are in the session. -/
  | reported
  | fault (f : Fault)
  /-- A message, and the messages of the causes under it. -/
  | raised (message : String) (causes : List String)
  /-- The implementation broke off. -/
  | panicked (message : String)
  deriving DecidableEq, Repr

/-- A computation of a command. -/
abbrev Eval (α : Type) := ExceptT Failure (StateM Running) α

/-- An argument ready to be used. -/
inductive BoundArgument where
  | value (get : Eval Value)
  | block (run : Option Value → Eval Value)
  | variable (name : String)

/-- One call of a command. -/
structure Call where
  /-- The piped value, void if there is none. -/
  piped : Value
  /-- A `not` stands before the command. -/
  inverted : Bool
  types : List ValueType
  arguments : List BoundArgument
  /-- The lines that describe the commands of the directory. -/
  listing : List String

namespace Call

/-- Fail with a message. -/
def raise {α : Type} (message : String) : Eval α := throw (.raised message [])

/-- Change the session. -/
def change (f : Session → Session) : Eval Unit := modify fun r => { r with session := f r.session }

/-- Write a line. -/
def writeLine (line : String) : Eval Unit :=
  modify fun r => { r with session := r.session.writeLine line, journal := .wrote line :: r.journal }

/-- Set a variable. -/
def setVariable (name : String) (v : Value) : Eval Unit :=
  modify fun r => { r with session := r.session.setVariable name v, journal := .stored name v :: r.journal }

/-- A type argument. -/
def typeArgument (c : Call) (i : Nat) : Eval ValueType :=
  match c.types[i]? with
  | some t => return t
  | none => raise ("missing type argument " ++ Decimal.natText i)

/-- An argument. -/
def argument (c : Call) (i : Nat) : Eval BoundArgument :=
  match c.arguments[i]? with
  | some a => return a
  | none => raise ("missing argument " ++ Decimal.natText i)

/-- The value of an argument. -/
def value (c : Call) (i : Nat) : Eval Value := do
  match ← c.argument i with
  | .value get => get
  | _ => raise ("argument " ++ Decimal.natText i ++ " is not a value")

/-- The value of an integer argument. -/
def int (c : Call) (i : Nat) : Eval Int64 := do
  match ← c.value i with
  | .int n => return n
  | v => raise ("expected an int, got " ++ v.type.name)

/-- The value of a float argument. -/
def float (c : Call) (i : Nat) : Eval Float := do
  match ← c.value i with
  | .float x => return x
  | v => raise ("expected a float, got " ++ v.type.name)

/-- The value of a text argument. -/
def string (c : Call) (i : Nat) : Eval String := do
  match ← c.value i with
  | .string s => return s
  | v => raise ("expected a string, got " ++ v.type.name)

/-- The name of a variable argument. -/
def variableName (c : Call) (i : Nat) : Eval String := do
  match ← c.argument i with
  | .variable name => return name
  | _ => raise ("argument " ++ Decimal.natText i ++ " is not a variable")

/-- Run a block argument. -/
def runBlock (c : Call) (i : Nat) (input : Option Value) : Eval Value := do
  match ← c.argument i with
  | .block run => run input
  | _ => raise ("argument " ++ Decimal.natText i ++ " is not a block")

/-- The value of a variable, if it is of a type. -/
def readVariable (name : String) (expected : ValueType) : Eval Value := do
  match (← get).session.store.get? name with
  | none => throw (.fault { cause := .undefinedVariable name })
  | some v =>
    if v.type.assignable expected then return v
    else throw (.fault { cause := .wrongVariableType name expected v.type })

end Call

end KeyConsole.Console
