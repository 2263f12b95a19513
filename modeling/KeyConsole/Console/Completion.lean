import KeyConsole.Console.Fuzzy
import KeyConsole.Console.Pipeline.Reading

/-!
# Console.Completion: requests answered with choices

A request is answered with the texts that fit it, best first, and with a hint of what is expected.
-/

namespace KeyConsole.Console

/-- A text to go on with. -/
structure Choice where
  text : String
  description : Option String := none
  deriving DecidableEq, Repr

/-- A choice whose description is left out if it is empty. -/
def Choice.described (text description : String) : Choice :=
  ⟨text, if description.isEmpty then none else some description⟩

/-- The answer to a request. -/
structure Answer where
  choices : List Choice
  hint : String
  deriving DecidableEq, Repr

namespace Completion

/-- What a choice that begins with the typed text scores besides. -/
def beginningScore : Nat := 2147483647

/-- How well a choice fits the typed text. -/
def score? (typed : String) (c : Choice) : Option Nat :=
  (Fuzzy.score? typed c.text).map fun n =>
    min 4294967295 (n + if typed.toList.isPrefixOf c.text.toList then beginningScore else 0)

/-- The choices that fit, best first and then by text; all of them by text if nothing is typed. -/
def ranked (typed : String) (choices : List Choice) : List Choice :=
  if typed.isEmpty then Ordered.sorted (fun a b => Ordered.textLe a.text b.text) choices
  else
    let scored := choices.filterMap fun c => (score? typed c).map fun n => (n, c)
    let before (a b : Nat × Choice) : Bool :=
      b.1 < a.1 || (a.1 = b.1 && Ordered.textLe a.2.text b.2.text)
    (Ordered.sorted before scored).map (·.2)

/-- The first choice of each text. -/
def distinct (choices : List Choice) : List Choice :=
  choices.foldl (fun done c => if done.any (·.text = c.text) then done else done ++ [c]) []

/-- The ways to write a command with a signature that takes a piped type. -/
def commandChoicesOf (piped : Option ValueType) (c : Command) : List Choice :=
  (c.signatures.filter (·.accepts piped)).map fun s =>
    Choice.described (Command.fullName c.name s.subcommand) c.description

/-- The commands that take a piped type. -/
def commandChoices (d : Directory) (piped : Option ValueType) : List Choice :=
  distinct (d.commands.values.flatMap (commandChoicesOf piped))

/-- The subcommands of a command that take a piped type. -/
def subcommandChoices (d : Directory) (command : String) (piped : Option ValueType) : List Choice :=
  match d.get? command with
  | none => []
  | some c =>
    (c.subcommands.filter fun sub => (c.under (some sub)).any (·.accepts piped)).map
      (Choice.described · c.description)

/-- The names of types, and the start of a list type. -/
def typeChoices : List Choice := (ValueType.plainNames ++ ["list<"]).map fun t => { text := t }

/-- The answer to a request. -/
def answer (d : Directory) : Request → Answer
  | .commands piped typed => ⟨ranked typed (commandChoices d piped), "<command>"⟩
  | .subcommands command piped typed =>
    ⟨ranked typed (subcommandChoices d command piped), "<subcommand>"⟩
  | .argument hint options => ⟨options.map fun o => { text := o }, hint⟩
  | .block hint piped =>
    ⟨{ text := "\x7b", description := some "start a block" } :: ranked "" (commandChoices d piped), hint⟩
  | .types typed => ⟨ranked typed typeChoices, "<type>"⟩
  | .names typed candidates =>
    ⟨ranked typed (candidates.map fun c => { text := c }), "<variable>"⟩

end Completion

/-- What could be typed at the end of an expression. -/
def Directory.complete (d : Directory) (source : String) (piped : Option ValueType)
    (known : Ordered.NameMap ValueType) : Option Answer :=
  (d.request? source piped known).map (Completion.answer d)

end KeyConsole.Console
