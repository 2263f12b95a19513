import KeyConsole.Console.Literal
import KeyConsole.Console.Pipeline
import KeyConsole.Text.Alphanumeric

/-!
# Console.Pipeline.Reading: expressions read against a directory

The commands of a pipeline are read from left to right.  The type piped to a command picks its signature,
and this says which arguments follow.  Blocks are pipelines in turn; `readNested` is bounded by their
depth, which is less than the number of characters.
-/

namespace KeyConsole.Console

open Reading Text

/-- A character of a command name. -/
def isCommandChar (c : Char) : Bool :=
  !isBlank c && !(c = '{' || c = '}' || c = '[' || c = ']' || c = '(' || c = ')' || c = ';' || c = '|'
    || c = ':' || c = '$' || c = '"' || c = ',')

/-- A character of a variable name. -/
def isVariableChar (c : Char) : Bool := isAlphanumeric c || c = '_'

/-- A character of the name of a type. -/
def isTypeChar (c : Char) : Bool := isAlphanumeric c || c = '_' || c = '<' || c = '>'

/-- How a block is read: a whole pipeline or (`once`) a single command, with a piped type and a type that
it has to return. -/
abbrev BlockReading := (once : Bool) → (piped target : Option ValueType) → Reading Pipeline

namespace Reading

/-- Fail because the input ends here. -/
def refuseEnd {α : Type} : Reading α := do
  let here ← offset
  refuse .outOfInput (.between here here)

/-- The span from a place to the cursor. -/
def spanFrom (start : Nat) : Reading Span := do return .between start (← offset)

/-! ### Types, variables and blocks -/

/-- A type argument of a command. -/
def typeArgument (command : String) : Reading ValueType := do
  skipSpace
  let start ← offset
  match ← step (Cursor.word isTypeChar) with
  | none =>
    if ← look Cursor.atEnd then move (·.offer (.types ""))
    refuse (.expectedTypeArgument command) (.between start (start + 1))
  | some w =>
    if ← look Cursor.atEnd then move (·.offer (.types w))
    match ValueType.ofName? w with
    | some t => return t
    | none => refuse (.unknownType w) (← spanFrom start)

/-- The name of a variable behind its `$`.  At the end of the input the variables of the wanted type are
offered. -/
def variableName (wanted : Option ValueType) : Reading String := do
  skipSpace
  let start ← offset
  if ← eat '$' then
    let name := String.ofList (← look (Cursor.upcoming isVariableChar))
    move (Cursor.skip isVariableChar)
    let admits (t : ValueType) : Bool := wanted.all t.assignable
    if ← look Cursor.atEnd then
      let known ← look Cursor.known
      move (·.offer (.names ("$" ++ name) (Request.variablesOf known admits)))
    if name.isEmpty then
      if ← look Cursor.atEnd then refuseEnd
      else refuse (.unreadableArgument "$" "$variable") (.between start ((← offset) + 1))
    else return name
  else
    let input ← Literal.wordAhead
    refuse (.unreadableArgument input "$variable")
      (.between start (start + max 1 (size input.toList)))

/-- A pipeline in braces, or a single command. -/
def block (nested : BlockReading) (piped target : Option ValueType) : Reading Pipeline := do
  skipSpace
  let start ← offset
  if ← eat '{' then
    move (Cursor.pushCloser '}')
    let p ← nested false piped target
    if ← step Cursor.eatCloser then return p
    else refuse .missingClosingBrace (← spanFrom start)
  else nested true piped target

/-! ### Arguments -/

/-- The argument for a parameter. -/
def argument (nested : BlockReading) (command : String) (piped : Option ValueType) (p : Parameter) :
    Reading Argument := do
  skipSpace
  let c ← get
  if c.atEnd && c.completing then
    move (·.offer (.forParameter p piped c.known))
    refuseEnd
  else if c.atCommandEnd || c.atEnd then
    refuse (.expectedArgument command p.name p.expected) (.between c.offset (c.offset + 1))
  else
    match p.kind with
    | .value t =>
      match c.peek with
      | some '$' => return .read (← variableName (some t)) t
      | some '{' => return .valueBlock (← block nested none (some t))
      | _ => return .literal (← literal t)
    | .block feed output => return .block (← block nested (feed.type piped) output)
    | .assign =>
      let name ← variableName none
      move (Cursor.declare name (piped.getD .any))
      return .variable name
    | .variable => return .variable (← variableName none)

/-- Arguments with what they say about types. -/
structure Arguments where
  arguments : List Argument := []
  blocks : List ValueType := []
  variableTypes : List (Option ValueType) := []

/-- An argument in front of others; `known` are the variables known behind it. -/
def Arguments.cons (p : Parameter) (piped : Option ValueType) (known : Ordered.NameMap ValueType)
    (a : Argument) (rest : Arguments) : Arguments :=
  let rest := { rest with arguments := a :: rest.arguments }
  match p.kind, a with
  | .block .., .block b => { rest with blocks := b.returns :: rest.blocks }
  | .variable, .variable name => { rest with variableTypes := known.get? name :: rest.variableTypes }
  | .assign, .variable _ => { rest with variableTypes := piped :: rest.variableTypes }
  | _, _ => rest

/-- The arguments for some parameters. -/
def arguments (nested : BlockReading) (command : String) (piped : Option ValueType) :
    List Parameter → Reading Arguments
  | [] => return {}
  | p :: rest => do
    let a ← argument nested command piped p
    let known ← look Cursor.known
    return (← arguments nested command piped rest).cons p piped known a

/-! ### Names of commands -/

/-- Fail where a command should begin at `start`. -/
def refuseCommand {α : Type} (piped : Option ValueType) (start : Nat) : Reading α := do
  let c ← get
  if c.atEnd then
    move (·.offer (.commands piped ""))
    refuse .outOfInput (.between start start)
  else if c.peek = some '{' && (c.slice? '{' '}').isNone then
    refuse .missingClosingBrace (.between start (size c.source.toList))
  else
    refuse .notValidCommand (.between start (start + c.peek.elim 1 Char.utf8Size))

/-- The subcommand behind the name of a command that has some. -/
def subcommand (c : Command) (piped : Option ValueType) : Reading String := do
  if ← eat ':' then
    let start ← offset
    let sub := String.ofList (← look (Cursor.upcoming isCommandChar))
    move (Cursor.skip isCommandChar)
    let ended ← look Cursor.atEnd
    if ended then move (·.offer (.subcommands c.name piped sub))
    if sub.isEmpty then refuse .outOfInput (.between start start)
    else if !c.subcommands.contains sub then
      refuse (.unknownSubcommand c.name sub c.subcommands) (← spanFrom start)
    else if (← look Cursor.completing) && ended then refuseEnd
    else return sub
  else
    let here ← offset
    if ← look Cursor.atEnd then
      move (·.offer (.subcommands c.name piped ""))
      refuseEnd
    else refuse (.unknownSubcommand c.name "" c.subcommands) (.between here (here + 1))

/-- As many type arguments as a command takes. -/
def typeArguments (command : String) : Nat → Reading (List ValueType)
  | 0 => return []
  | n + 1 => do
    let t ← typeArgument command
    return t :: (← typeArguments command n)

/-- The word where a command should begin; a digit begins none. -/
def commandWord : Reading (Option String) := do
  if ← look (·.peek.any Char.isDigit) then return none
  else step (Cursor.word isCommandChar)

/-! ### Heads of commands -/

/-- A command before its arguments. -/
structure Head where
  inverted : Bool
  name : String
  subcommand : Option String
  types : List ValueType
  signature : Signature

section

variable (d : Directory) (piped : Option ValueType) (nameStart : Nat) (inverted : Bool) (name : String)

/-- The head of a command with a signature for the piped type and the type arguments. -/
def headSignature (c : Command) (sub : Option String) (types : List ValueType) : Reading Head := do
  match c.resolve? sub piped types.length with
  | none =>
    let accepted := c.acceptedTypes sub
    let hint := piped.bind (d.conversion? · accepted)
    refuse (.noImplementation (Command.fullName name sub) piped accepted hint) (← spanFrom nameStart)
  | some signature => return { inverted, name, subcommand := sub, types, signature }

/-- The type arguments of a command, and its signature. -/
def headTypes (c : Command) (sub : Option String) : Reading Head := do
  let types ← typeArguments (Command.fullName name sub) (c.typeCount sub)
  headSignature d piped nameStart inverted name c sub types

/-- What belongs to the head behind the subcommand, if there is one. -/
def headBehindSubcommand (c : Command) (sub : Option String) : Reading Head := do
  if sub.isNone && (← look fun c => c.completing && c.atEnd) then
    move (·.offer (.commands piped name))
    refuseEnd
  else headTypes d piped nameStart inverted name c sub

/-- What belongs to the head behind the name: its command is looked up. -/
def headBehindName : Reading Head := do
  match d.get? name with
  | none =>
    if ← look Cursor.atEnd then move (·.offer (.commands piped name))
    refuse (.unknownCommand name) (← spanFrom nameStart)
  | some c =>
    let sub ← if c.hasSubcommands then some <$> subcommand c piped else pure none
    headBehindSubcommand d piped nameStart inverted name c sub

/-- What belongs to the head behind a `not`, or from where it could stand. -/
def headBehindNot : Reading Head := do
  skipSpace
  let nameStart ← offset
  match ← commandWord with
  | none => refuseCommand piped nameStart
  | some name => headBehindName d piped nameStart inverted name

/-- A command up to its arguments: the name, with the subcommand and the type arguments. -/
def commandHead : Reading Head := do
  skipSpace
  headBehindNot d piped (← step (Cursor.eatWord "not"))

end

/-! ### Commands -/

/-- The step that a head and its arguments make; its span begins at `start`. -/
def Head.finish (nested : BlockReading) (piped : Option ValueType) (start : Nat) (h : Head) : Reading Step := do
  let read ← arguments nested (Command.fullName h.name h.subcommand) piped h.signature.parameters
  let returns := h.signature.returns.type
    { piped, types := h.types, blocks := read.blocks, variableTypes := read.variableTypes }
  return { name := h.name, subcommand := h.subcommand, inverted := h.inverted, piped, types := h.types,
           arguments := read.arguments, signature := h.signature, returns, span := ← spanFrom start }

/-- A command with everything that belongs to it. -/
def command (d : Directory) (nested : BlockReading) (piped : Option ValueType) (start : Nat) :
    Reading Step := do
  (← commandHead d piped).finish nested piped start

/-! ### Pipelines -/

/-- The steps from here on, and the type piped on behind them. -/
structure Steps where
  steps : List Step
  piped : Option ValueType

/-- One command up to the end of the input or the block, with what `rest` makes of those behind it. -/
def row (d : Directory) (nested : BlockReading) (once : Bool) (rest : Option ValueType → Reading Steps)
    (piped : Option ValueType) : Reading Steps := do
  let s ← command d nested piped (← offset)
  if once then return ⟨[s], some s.returns⟩
  let before ← offset
  skipSpace
  let joint ← look (Cursor.joints (some s.returns))
  set joint.after
  let c ← get
  if c.atCloser && !joint.expected then return ⟨[s], joint.piped⟩
  else if c.atCloser && !c.completing then
    refuse .unexpectedCloseBrace (.between c.offset (c.offset + 1))
  else if c.atEnd && joint.expected then
    move (·.offer (.commands joint.piped ""))
    refuseEnd
  else if c.atEnd then
    if joint.piped.any (· ≠ .void) && c.offset > before then
      move (·.offer (.commands joint.piped ""))
    return ⟨[s], joint.piped⟩
  else if joint.piped = some .void then
    refuse .endOfCommand (.between c.offset (c.offset + 1))
  else
    let others ← rest joint.piped
    return { others with steps := s :: others.steps }

/-- Commands until the input or the block ends, fewer of them than a bound. -/
def steps (d : Directory) (nested : BlockReading) (once : Bool) : Nat → Option ValueType → Reading Steps
  | 0 => fun _ => failure
  | n + 1 => row d nested once (steps d nested once n)

/-- All commands until the input or the block ends: there are not more than characters left. -/
def commands (d : Directory) (nested : BlockReading) (once : Bool) (piped : Option ValueType) : Reading Steps := do
  steps d nested once ((← look fun c => c.rest.length) + 1) piped

/-- A pipeline or (`once`) a single command, whose blocks are read by `nested`. -/
def pipeline (d : Directory) (nested : BlockReading) : BlockReading := fun once piped target => do
  skipSpace
  let start ← offset
  if ← look Cursor.atCloser then refuse .emptyPipeline (.between start (start + 1))
  let read ← commands d nested once piped
  let returns := match read.piped with
    | none => .void
    | some _ => read.steps.getLast?.elim .void (·.returns)
  if target.all returns.assignable then
    return { steps := read.steps, source := ← look Cursor.source, piped, returns }
  else
    let first := read.steps.head?.elim start (·.span.start)
    refuse (.wrongReturn (target.getD .any) returns) (← spanFrom first)

/-- Pipelines with blocks nested less deep than a bound. -/
def readNested (d : Directory) : Nat → BlockReading
  | 0 => fun _ _ _ => failure
  | depth + 1 => pipeline d (readNested d depth)

/-- The pipeline that a cursor ranges over. -/
def whole (d : Directory) (piped : Option ValueType) : Reading Pipeline := do
  readNested d ((← look fun c => c.rest.length) + 1) false piped none

end Reading

namespace Directory

/-- The start of an expression, with some variables known. -/
def cursor (d : Directory) (source : String) (known : Ordered.NameMap ValueType) : Cursor :=
  { Cursor.ofSource source with newlineEnds := d.newlineEnds, known }

/-- Read an expression. -/
def read (d : Directory) (source : String) (piped : Option ValueType)
    (known : Ordered.NameMap ValueType) : Except Fault Pipeline :=
  match (Reading.whole d piped).run.run (d.cursor source known) with
  | (some p, _) => .ok p
  | (none, c) =>
    .error (c.fault.getD
      { cause := .notValidCommand, span := some (.between 0 (size source.toList)) })

/-- What could be typed at the end of an expression. -/
def request? (d : Directory) (source : String) (piped : Option ValueType)
    (known : Ordered.NameMap ValueType) : Option Request :=
  ((Reading.whole d piped).run.run { d.cursor source known with completing := true }).2.request

end Directory

end KeyConsole.Console
