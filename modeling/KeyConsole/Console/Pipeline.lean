import KeyConsole.Console.Directory

/-!
# Console.Pipeline: expressions that have been read, and how they run

A pipeline is a row of steps; each step gets the value of the one before piped in.  An argument can be a
pipeline in turn.  Running stops at the first step that fails; its faults get the source text and the
span of the innermost step and stay in the session.
-/

namespace KeyConsole.Console

mutual

/-- A command with its arguments, bound to one of its signatures. -/
structure Step where
  name : String
  subcommand : Option String
  /-- A `not` stands before the command. -/
  inverted : Bool
  piped : Option ValueType
  types : List ValueType
  arguments : List Argument
  signature : Signature
  returns : ValueType
  span : Span

/-- What is written behind a command. -/
inductive Argument where
  | literal (v : Value)
  /-- The value of a variable, which has to be of the type. -/
  | read (name : String) (t : ValueType)
  /-- The value of a block. -/
  | valueBlock (p : Pipeline)
  /-- A block for the command to run. -/
  | block (p : Pipeline)
  /-- A variable by name. -/
  | variable (name : String)

/-- A row of steps. -/
structure Pipeline where
  steps : List Step
  source : String
  piped : Option ValueType
  returns : ValueType

end

/-- The name of the command as it is written. -/
def Step.fullName (s : Step) : String := Command.fullName s.name s.subcommand

/-- A running computation whose failures are in the session. -/
abbrev Run (α : Type) := StateM Running α

namespace Run

/-- Change the session. -/
def change (f : Session → Session) : Run Unit := modify fun r => { r with session := f r.session }

/-- Report a fault. -/
def report (f : Fault) : Run Unit := change (·.report f)

/-- Enter a turn in the journal. -/
def enter (t : Turn) : Run Unit := modify fun r => { r with journal := t :: r.journal }

/-- Whether a command may run: as looked up before in the same epoch, else looked up now. -/
def permits (place : Nat) (command : String) : Run Bool := do
  let r ← get
  match r.verdicts.lookup (place, command) with
  | some v => if v.epoch = r.session.epoch then return v.permitted else fresh r
  | none => fresh r
where
  fresh (r : Running) : Run Bool := do
    let key := (place, command)
    let permitted := r.session.permits command
    set { r with verdicts := (key, ⟨r.session.epoch, permitted⟩) :: r.verdicts.filter (·.1 ≠ key) }
    return permitted

/-- The outcome of an implementation, with its failure reported. -/
def settle (outcome : Eval Value) : Run (Option Value) := do
  match ← outcome.run with
  | .ok v => return some v
  | .error .reported => return none
  | .error (.fault f) => report f; return none
  | .error (.raised message causes) =>
    let trace := if causes.isEmpty then none else some ("\n".intercalate causes)
    report { cause := .exception message, trace }
    return none
  | .error (.panicked message) => report { cause := .exception message }; return none

/-- The value of a step, or the faults of the session placed at the step.  A step without value that left
no fault gets one. -/
def checked (source fullName : String) (span : Span) (v : Option Value) : Run (Option Value) := do
  let faults := (← get).session.faults
  match v, faults with
  | some v, [] => return some v
  | _, _ =>
    let faults := if faults.isEmpty then
        [{ cause := .exception ("'" ++ fullName ++ "' returned nothing") : Fault }]
      else faults
    change fun s => { s with faults := faults.map (·.within source span) }
    return none

/-- A block as the computation of a value. -/
def asBlock (run : Run (Option Value)) : Eval Value := do
  match ← (run : StateM Running (Option Value)) with
  | some v => return v
  | none => throw .reported

end Run

variable (listing : List String)

mutual

/-- Run a block or a whole pipeline; faults stay in the session. -/
def Pipeline.runNested : Pipeline → Option Value → Run (Option Value)
  | ⟨steps, source, _, _⟩, input => runSteps source steps (input.getD .void)

/-- Run the steps from some value on. -/
def runSteps (source : String) : List Step → Value → Run (Option Value)
  | [], v => return some v
  | s :: rest, v => do
    match ← Run.checked source s.fullName s.span (← s.run v) with
    | some v => runSteps source rest v
    | none => return none

/-- Run one step, if it may run. -/
def Step.run : Step → Value → Run (Option Value)
  | ⟨name, subcommand, inverted, pipedType, types, arguments, signature, returns, span⟩, piped => do
    let site : Site := { name, subcommand, span, piped := pipedType, returns }
    if ← Run.permits span.start name then
      Run.enter (.started site piped)
      let call := { piped, inverted, types, arguments := bindAll arguments, listing }
      match ← Run.settle (signature.run call) with
      | some v =>
        Run.enter (.returned site v)
        return some v
      | none =>
        Run.enter (.failed site)
        return none
    else
      Run.enter (.refused site)
      Run.report { cause := .noPermission (Command.fullName name subcommand) }
      return none

/-- The arguments ready to be used. -/
def bindAll : List Argument → List BoundArgument
  | [] => []
  | a :: rest => a.bind :: bindAll rest

/-- An argument ready to be used. -/
def Argument.bind : Argument → BoundArgument
  | .literal v => .value (pure v)
  | .read name t => .value (Call.readVariable name t)
  | .valueBlock p => .value (Run.asBlock (p.runNested none))
  | .block p => .block fun input => Run.asBlock (p.runNested input)
  | .variable name => .variable name

end

/-- Run a pipeline.  With faults pending it does not run; if it fails, its faults are written out and stay
in the session. -/
def Pipeline.run (p : Pipeline) (input : Option Value) : Run (Option Value) := do
  if !(← get).session.faults.isEmpty then
    Run.report { cause := .pendingFaults }
    return none
  match ← p.runNested listing input with
  | some v => return some v
  | none =>
    Run.change fun s => { s with output := s.output ++ (s.faults.map Fault.rendered).toArray }
    return none

end KeyConsole.Console
