import KeyConsole.CommandLine.Invocation
import KeyConsole.CommandLine.Json
import KeyConsole.Console.Builtin
import KeyConsole.Console.Program
import KeyConsole.Keybinds.Settings

/-!
# CommandLine.Running: from a command line to its output

Running needs files only through a function that reads one, so it is the same with real files and without any.
-/

namespace KeyConsole.CommandLine

open Console (Directory Session Value ValueType readValue)
open Dispatch (Dispatcher Listener Notice)
open Keybinds (Settings)

/-- What a command line leads to. -/
structure Outcome where
  /-- Zero for success. -/
  code : Nat := 0
  output : String := ""
  /-- What has gone wrong. -/
  complaint : String := ""
  deriving DecidableEq, Inhabited, Repr

namespace Outcome

/-- Lines, each with its end. -/
def lines (ls : List String) : String := ls.foldr (fun l rest => l ++ "\n" ++ rest) ""

/-- A success with some lines. -/
def success (ls : List String) : Outcome := { output := lines ls }

/-- A failure after some lines. -/
def failure (ls : List String) (complaint : String) : Outcome :=
  { code := 1, output := lines ls, complaint }

/-- A command line that does not fit. -/
def usage (f : UsageFault) : Outcome := { code := 2, complaint := f.message }

end Outcome

/-- The console commands, with the line ends that the settings ask for. -/
def directoryFor (s : Settings) : Directory := { Directory.builtin with newlineEnds := !s.multiline }

/-- Run an expression in a new session.  Answers what is written, and whether there is a value. -/
def evalLines (d : Directory) (expression : String) (input : Option Value) : List String × Bool :=
  let (value, session) := d.evaluate expression input {}
  let shown := (value.filter fun v => !v.isVoid).toList.map Value.toText
  (session.output.toList ++ shown, value.isSome)

/-- Run `eval`. -/
def runEval (d : Directory) (expression : String) (input : Option String) : Outcome :=
  match input.mapM readValue with
  | .error f => .failure [] ("Bad --input value:\n" ++ f.rendered)
  | .ok input =>
    let (ls, ok) := evalLines d expression input
    if ok then .success ls else .failure ls ""

/-- Show how an expression can go on behind a piped type. -/
def showCompletion (d : Directory) (most : Nat) (expression : String) (piped : Option ValueType) : Outcome :=
  let answer := d.complete expression piped {}
  let choices := answer.elim [] (·.choices)
  .success [Json.completion (choices.take most) (answer.map (·.hint))]

/-- Run `complete`. -/
def runComplete (d : Directory) (most : Nat) (expression : String) (inputType : Option String) : Outcome :=
  match inputType with
  | none => showCompletion d most expression none
  | some name =>
    match ValueType.ofName? name with
    | none => .failure [] ("Bad --input-type: " ++ ValueType.unknownNameMessage name)
    | some t => showCompletion d most expression (some t)

/-- Run `commands`. -/
def runCommands (d : Directory) : Outcome :=
  .success (Ordered.sorted Ordered.textLe d.descriptions)

/-- The line for a function that has changed. -/
def firedLine : Notice → Option String
  | .listener _ c _ => some (c.function ++ " " ++ c.state.name)
  | _ => none

/-- Apply an event; the fault is an unknown context. -/
def applyEvent (e : EventToken) (d : Dispatcher) : Except Dispatch.ContextFault Dispatcher :=
  match e with
  | .down key => .ok (d.keyDown { key }).2
  | .held key => .ok (d.keyDown { key, isRepeat := true }).2
  | .up key => .ok (d.keyUp { key }).2
  | .context name => d.setActiveContext name

/-- Replay one event.  Answers the lines for the functions that have changed and for the console commands
that were queued, which are run. -/
def replayEvent (console : Directory) (e : EventToken) (d : Dispatcher) :
    Except Dispatch.ContextFault (List String × Dispatcher) :=
  (applyEvent e d).map fun d =>
    let (queued, d) := d.takeCommands
    let fired := (d.journal.filterMap firedLine).map fun l => e.text ++ ": " ++ l
    let ran := queued.flatMap fun c => (e.text ++ ": > " ++ c) :: (evalLines console c none).1
    (fired ++ ran, { d with journal := [] })

/-- Replay events, up to the first unknown context. -/
def replay (console : Directory) : List EventToken → Dispatcher → List String × Option Dispatch.ContextFault
  | [], _ => ([], none)
  | e :: rest, d =>
    match replayEvent console e d with
    | .error f => ([], some f)
    | .ok (ls, d) =>
      let (more, f) := replay console rest d
      (ls ++ more, f)

/-- Run `keys` with the text of the user's keybind file. -/
def runKeys (s : Settings) (keybinds : Option String) (context : Option String)
    (events : List EventToken) : Outcome :=
  match s.dispatcher keybinds with
  | .error f => .failure [] (s.contextMessage f)
  | .ok d =>
    match context.elim (.ok d) d.setActiveContext with
    | .error f => .failure [] f.message
    | .ok d =>
      let d := { d with listeners := d.listeners ++ [({ label := "" } : Listener)], journal := [] }
      let (ls, f) := replay (directoryFor s) events d
      f.elim (.success ls) fun f => .failure ls f.message

/-- The answer to the question for the version. -/
def versionText : String := "keyshed 0.1.0"

/-- The answer to the question for help. -/
def helpLines : List String := [
  "Keybinding resolution engine and a small typed, piped command language",
  "",
  "Usage: keyshed [OPTIONS] <COMMAND>",
  "",
  "Commands:",
  "  eval      Parse and run an expression",
  "  complete  List completions for the end of an expression",
  "  keys      Feed key events to the input manager and print what fires",
  "  commands  List every command with its description",
  "  help      Print this message or the help of the given subcommand(s)",
  "",
  "Options:",
  "      --config <FILE>  Config file to use instead of `~/.config/keyshed/config.yaml`",
  "  -h, --help           Print help",
  "  -V, --version        Print version"]

/-- The outcome if there is no command to run. -/
def Stop.outcome : Stop → Outcome
  | question .help => .success helpLines
  | question .version => .success [versionText]
  | fault f => .usage f

/-- The places of the files that are read if no others are named. -/
structure Places where
  settings : Option String := none
  keybinds : Option String := none
  deriving DecidableEq, Inhabited, Repr

variable {m : Type → Type} [Monad m]

/-- Read a file that may not be named. -/
def readNamed (readFile : String → m (Option String)) : Option String → m (Option String)
  | none => return none
  | some path => readFile path

/-- Run a command. -/
def runCommand (readFile : String → m (Option String)) (places : Places) (s : Settings) :
    Command → m Outcome
  | .eval expression input => return runEval (directoryFor s) expression input
  | .complete expression inputType =>
    return runComplete (directoryFor s) s.maxCompletions expression inputType
  | .commands => return runCommands (directoryFor s)
  | .keys keybinds context events => do
    let source ← readNamed readFile (keybinds <|> s.keybinds <|> places.keybinds)
    return runKeys s source context events

/-- Run a command line, with a function that answers the text of a file that is there. -/
def run (readFile : String → m (Option String)) (places : Places) (words : List String) : m Outcome := do
  match readInvocation words with
  | .error stop => return stop.outcome
  | .ok i =>
    let source ← readNamed readFile (i.settings <|> places.settings)
    runCommand readFile places (.ofFile source) i.command

end KeyConsole.CommandLine
