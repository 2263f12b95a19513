import KeyConsole.CommandLine.EventToken
import KeyConsole.CommandLine.Words

/-!
# CommandLine.Invocation: what a command line asks for
-/

namespace KeyConsole.CommandLine

/-- A command. -/
inductive Command where
  /-- Run an expression on an input. -/
  | eval (expression : String) (input : Option String)
  /-- Show how an expression can go on. -/
  | complete (expression : String) (inputType : Option String)
  /-- Replay events. -/
  | keys (keybinds context : Option String) (events : List EventToken)
  /-- List the commands of the console. -/
  | commands
  deriving DecidableEq, Repr

/-- A command, and where the settings are. -/
structure Invocation where
  settings : Option String := none
  command : Command
  deriving DecidableEq, Repr

/-- What may stand before the name of a command. -/
def rootGrammar : Grammar := { options := ["config"], paths := ["config"], versioned := true, stops := true }

/-- What may stand behind `eval`. -/
def evalGrammar : Grammar := { options := ["config", "input"], paths := ["config"], most := some 1 }

/-- What may stand behind `complete`. -/
def completeGrammar : Grammar := { options := ["config", "input-type"], paths := ["config"], most := some 1 }

/-- What may stand behind `keys`. -/
def keysGrammar : Grammar :=
  { options := ["config", "keybinds", "context"], paths := ["config", "keybinds"], hyphens := true }

/-- What may stand behind `commands`. -/
def commandsGrammar : Grammar := { options := ["config"], paths := ["config"], most := some 0 }

/-- The names of the commands. -/
def commandNames : List String := ["eval", "complete", "keys", "commands", "help"]

/-- Read the events of some words. -/
def readEvents : List String → Except Stop (List EventToken)
  | [] => .ok []
  | word :: rest =>
    match EventToken.read word with
    | .error f => .error (.fault (.badValue word f.message))
    | .ok e => (readEvents rest).map (e :: ·)

/-- Make a command of all the words behind its name. -/
def withWords (g : Grammar) (settings : Option String) (words : List String)
    (make : Words → Except Stop Command) : Except Stop Invocation := do
  let (w, _) ← Words.read g false {} words
  let command ← make w
  return { settings := w.value? "config" <|> settings, command }

/-- The words behind `help` name at most one command. -/
def helpOn : List String → Stop
  | [] => .question .help
  | [name] => if commandNames.contains name then .question .help else .fault (.unknownCommand name)
  | name :: word :: _ =>
    if commandNames.contains name then .fault (.unknownCommand word) else .fault (.unknownCommand name)

/-- Read the words behind the name of a command. -/
def readCommand (settings : Option String) (name : String) (words : List String) :
    Except Stop Invocation :=
  match name with
  | "eval" => withWords evalGrammar settings words fun w =>
    return .eval (← w.only "EXPRESSION") (w.value? "input")
  | "complete" => withWords completeGrammar settings words fun w =>
    return .complete (← w.only "EXPRESSION") (w.value? "input-type")
  | "keys" => withWords keysGrammar settings words fun w =>
    if w.arguments.isEmpty then .error (.fault (.missing "EVENTS"))
    else return .keys (w.value? "keybinds") (w.value? "context") (← readEvents w.arguments.reverse)
  | "commands" => withWords commandsGrammar settings words fun _ => return .commands
  | "help" => .error (helpOn words)
  | _ => .error (.fault (.unknownCommand name))

/-- Read a command line. -/
def readInvocation (words : List String) : Except Stop Invocation := do
  let (w, rest) ← Words.read rootGrammar false {} words
  match rest with
  | [] => .error (.fault (.missing "COMMAND"))
  | name :: rest => readCommand (w.value? "config") name rest

end KeyConsole.CommandLine
