import KeyConsole.Console.Builtin
import KeyConsole.Proofs.Console.TypeNames

/-!
# Proofs.Console.Canonical.Script: expressions as trees, and their canonical text

A script is an expression without its text: the commands in their order, what stands between them, and the types
that were found.  Its canonical text has one space between any two words.  `Script.Fits` says that a script is well
typed for the commands of a directory, and `Pipeline.Is` that a pipeline which has been read is just this script.
-/

namespace KeyConsole.Console

open Ordered (NameMap)

/-- What stands between two commands. -/
inductive Link where
  | space
  | bar
  | semicolon
  deriving DecidableEq, Repr

mutual

/-- Commands in a row. -/
inductive Script where
  | last (c : Clause)
  | link (c : Clause) (l : Link) (rest : Script)

/-- A command with its types and arguments. -/
structure Clause where
  inverted : Bool
  name : String
  subcommand : Option String
  types : List ValueType
  arguments : List Phrase
  piped : Option ValueType
  returns : ValueType

/-- An argument.  Floats are left out. -/
inductive Phrase where
  | int (n : Int64)
  | bool (b : Bool)
  | string (s : String)
  /-- The value of a variable, which has to be of the type. -/
  | read (name : String) (t : ValueType)
  /-- The value of a block. -/
  | valueBlock (s : Script)
  /-- A block for the command to run. -/
  | block (s : Script)
  /-- A variable by name. -/
  | variable (name : String)

end

/-- The type that is piped in. -/
def Script.piped : Script → Option ValueType
  | last c => c.piped
  | link c _ _ => c.piped

/-- The type that the last command returns. -/
def Script.returns : Script → ValueType
  | last c => c.returns
  | link _ _ rest => rest.returns

/-! ### Canonical texts -/

/-- The word of a mark between commands. -/
def Link.words : Link → List String
  | space => []
  | bar => ["|"]
  | semicolon => [";"]

/-- A character of a text in double quotes. -/
def escapedChar (c : Char) : List Char := if c = '"' || c = '\\' then ['\\', c] else [c]

/-- A text in double quotes, with backslashes in front of double quotes and backslashes only. -/
def quotedText (s : String) : String := String.ofList ('"' :: (s.toList.flatMap escapedChar ++ ['"']))

mutual

/-- The words of a script in their order. -/
def Script.words : Script → List String
  | .last c => c.words
  | .link c l rest => c.words ++ (l.words ++ rest.words)

/-- The words of a command. -/
def Clause.words : Clause → List String
  | ⟨inverted, name, subcommand, types, arguments, _, _⟩ =>
    (if inverted then ["not"] else []) ++
      Command.fullName name subcommand :: (types.map ValueType.name ++ argumentWords arguments)

/-- The words of arguments. -/
def argumentWords : List Phrase → List String
  | [] => []
  | a :: rest => a.words ++ argumentWords rest

/-- The words of an argument. -/
def Phrase.words : Phrase → List String
  | .int n => [Decimal.intText n.toInt]
  | .bool b => [if b then "true" else "false"]
  | .string s => [quotedText s]
  | .read name _ => ["$" ++ name]
  | .valueBlock s => "\x7b" :: (s.words ++ ["\x7d"])
  | .block s => "\x7b" :: (s.words ++ ["\x7d"])
  | .variable name => ["$" ++ name]

end

/-- The words with one space between any two of them. -/
def Script.text (s : Script) : String := " ".intercalate s.words

mutual

/-- All type arguments in a script. -/
def Script.typeArguments : Script → List ValueType
  | .last c => c.typeArguments
  | .link c _ rest => c.typeArguments ++ rest.typeArguments

/-- All type arguments in a command. -/
def Clause.typeArguments : Clause → List ValueType
  | ⟨_, _, _, types, arguments, _, _⟩ => types ++ argumentTypes arguments

/-- All type arguments in the blocks among arguments. -/
def argumentTypes : List Phrase → List ValueType
  | [] => []
  | a :: rest => a.typeArguments ++ argumentTypes rest

/-- All type arguments in the block that an argument may be. -/
def Phrase.typeArguments : Phrase → List ValueType
  | .valueBlock s => s.typeArguments
  | .block s => s.typeArguments
  | _ => []

end

/-! ### Well-typed scripts -/

/-- What may be piped on over a link: nothing over a `;`, else what the command before returns, which is not void. -/
def Link.Joins : Link → (returns : ValueType) → (piped : Option ValueType) → Prop
  | .semicolon, _, piped => piped = none
  | _, returns, piped => piped = some returns ∧ returns ≠ .void

/-- A name of a variable as it may be written. -/
def IsVariableName (name : String) : Prop := name.toList ≠ [] ∧ ∀ x ∈ name.toList, isVariableChar x = true

instance (name : String) : Decidable (IsVariableName name) :=
  decidable_of_iff (name.toList ≠ [] ∧ name.toList.all isVariableChar = true) (by rw [List.all_eq_true]; rfl)

variable (d : Directory)

mutual

/-- The script is well typed: where the variables of `known` are known, each command has a signature for the type that
is piped to it, and behind the script the variables of `after` are known. -/
inductive Script.Fits : (known : NameMap ValueType) → Script → (after : NameMap ValueType) → Prop where
  | last {known after c} (h : Clause.Fits known c after) : Script.Fits known (.last c) after
  | link {known between after c l rest} (h : Clause.Fits known c between) (hjoins : Link.Joins l c.returns rest.piped)
      (hrest : Script.Fits between rest after) : Script.Fits known (.link c l rest) after

/-- The command has a signature for what is piped to it, arguments that fit, and the return type computed from them. -/
inductive Clause.Fits : (known : NameMap ValueType) → Clause → (after : NameMap ValueType) → Prop where
  | mk {known after inverted name subcommand types arguments piped command signature blocks variableTypes}
      (hcommand : d.get? name = some command)
      (hsignature : command.resolve? subcommand piped types.length = some signature)
      (harguments : PhrasesFit piped known signature.parameters arguments after blocks variableTypes) :
      Clause.Fits known
        ⟨inverted, name, subcommand, types, arguments, piped,
          signature.returns.type { piped, types, blocks, variableTypes }⟩ after

/-- The arguments of a command that gets `piped` fit its parameters; `blocks` and `variableTypes` are the types of the
blocks and of the variables among them. -/
inductive PhrasesFit : (piped : Option ValueType) → (known : NameMap ValueType) → List Parameter → List Phrase →
    (after : NameMap ValueType) → (blocks : List ValueType) → (variableTypes : List (Option ValueType)) → Prop where
  | nil {piped known} : PhrasesFit piped known [] [] known [] []
  | cons {piped known between after p ps a rest blocks others variableTypes more}
      (h : Phrase.Fits piped known (Parameter.kind p) a between blocks variableTypes)
      (hrest : PhrasesFit piped between ps rest after others more) :
      PhrasesFit piped known (p :: ps) (a :: rest) after (blocks ++ others) (variableTypes ++ more)

/-- The argument is one for a parameter of this kind. -/
inductive Phrase.Fits : (piped : Option ValueType) → (known : NameMap ValueType) → ParameterKind → Phrase →
    (after : NameMap ValueType) → (blocks : List ValueType) → (variableTypes : List (Option ValueType)) → Prop where
  | int {piped known n} : Phrase.Fits piped known (.value .int) (.int n) known [] []
  | bool {piped known b} : Phrase.Fits piped known (.value .bool) (.bool b) known [] []
  | string {piped known s} : Phrase.Fits piped known (.value .string) (.string s) known [] []
  | read {piped known name t} (h : IsVariableName name) :
      Phrase.Fits piped known (.value t) (.read name t) known [] []
  | valueBlock {piped known after s t} (h : Script.Fits known s after) (hpiped : s.piped = none)
      (hreturns : s.returns.assignable t = true) :
      Phrase.Fits piped known (.value t) (.valueBlock s) after [] []
  | block {piped known after s feed output} (h : Script.Fits known s after) (hpiped : s.piped = Feed.type feed piped)
      (hreturns : ∀ t ∈ output, s.returns.assignable t = true) :
      Phrase.Fits piped known (.block feed output) (.block s) after [s.returns] []
  | assign {piped known name} (h : IsVariableName name) :
      Phrase.Fits piped known .assign (.variable name) (known.put name (piped.getD .any)) [] [piped]
  | variable {piped known name} (h : IsVariableName name) :
      Phrase.Fits piped known .variable (.variable name) known [] [known.get? name]

end

/-! ### Pipelines and their scripts -/

mutual

/-- The pipeline is the script, with a source and with spans. -/
def Pipeline.Is : Pipeline → Script → Prop
  | ⟨steps, _, piped, returns⟩, s => stepsAre steps s ∧ piped = s.piped ∧ returns = s.returns

/-- The steps are the commands of the script in their order. -/
def stepsAre : List Step → Script → Prop
  | [], _ => False
  | t :: rest, .last c => t.Is c ∧ rest = []
  | t :: rest, .link c _ s => t.Is c ∧ stepsAre rest s

/-- The step is the command. -/
def Step.Is : Step → Clause → Prop
  | ⟨name, subcommand, inverted, piped, types, arguments, _, returns, _⟩, c =>
    name = c.name ∧ subcommand = c.subcommand ∧ inverted = c.inverted ∧ types = c.types ∧
      argumentsAre arguments c.arguments ∧ piped = c.piped ∧ returns = c.returns

/-- The arguments are those of the command. -/
def argumentsAre : List Argument → List Phrase → Prop
  | [], [] => True
  | a :: rest, b :: others => a.Is b ∧ argumentsAre rest others
  | _, _ => False

/-- The one argument is the other. -/
def Argument.Is : Argument → Phrase → Prop
  | .literal (.int n), .int m => n = m
  | .literal (.bool b), .bool b' => b = b'
  | .literal (.string s), .string s' => s = s'
  | .read name t, .read name' t' => name = name' ∧ t = t'
  | .valueBlock p, .valueBlock s => p.Is s
  | .block p, .block s => p.Is s
  | .variable name, .variable name' => name = name'
  | _, _ => False

end

end KeyConsole.Console
