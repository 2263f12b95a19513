import KeyConsole.Console.Span
import KeyConsole.Console.ValueType
import KeyConsole.Text.Bytes

/-!
# Console.Fault: what went wrong, and where

A fault has a cause, and may have the source text and the span it points at and a trace of deeper
causes.  `Fault.rendered` shows the cause above the source with the span underlined.
-/

namespace KeyConsole.Console

/-- What went wrong while an expression was read or run. -/
inductive Cause where
  | outOfInput
  | notValidCommand
  | unknownCommand (name : String)
  | unknownSubcommand (command subcommand : String) (valid : List String)
  | noImplementation (command : String) (piped : Option ValueType) (accepted : List ValueType)
      (conversion : Option String)
  | emptyPipeline
  | unexpectedCloseBrace
  | endOfCommand
  | wrongReturn (expected found : ValueType)
  | missingClosingBrace
  | expectedArgument (command parameter expected : String)
  | expectedTypeArgument (command : String)
  | unknownType (name : String)
  | unreadableArgument (input expected : String)
  | noPermission (command : String)
  | undefinedVariable (name : String)
  | wrongVariableType (name : String) (expected found : ValueType)
  | exception (message : String)
  | pendingFaults
  deriving DecidableEq, Repr

/-- Texts with a comma between them. -/
def commaList (texts : List String) : String := ", ".intercalate texts

namespace Cause

/-- The suggestion of a command that converts the piped value. -/
def conversionHint : Option String → String
  | none => ""
  | some command => " Did you mean to convert first with '" ++ command ++ "'?"

/-- The cause in words. -/
def message : Cause → String
  | outOfInput => "Ran out of input data when data was expected."
  | notValidCommand => "Ran into an invalid command, could not parse."
  | unknownCommand name => "Got unknown command " ++ name ++ "."
  | unknownSubcommand command subcommand valid =>
    "The command group " ++ command ++ " doesn't have command " ++ subcommand
      ++ ". The valid commands are: " ++ commaList valid ++ "."
  | noImplementation command piped accepted conversion =>
    "Could not find an implementation of the '" ++ command ++ "' command given the input type '"
      ++ (piped.getD .void).name ++ "'. Accepted types: " ++ commaList (accepted.map ValueType.name)
      ++ "." ++ conversionHint conversion
  | emptyPipeline => "Empty command block"
  | unexpectedCloseBrace => "Ran into an unexpected closing brace, \x7d."
  | endOfCommand => "Expected a command or block terminator (';' or '\x7d')"
  | wrongReturn expected found =>
    "Expected an command run that returns type " ++ expected.name ++ ", but got " ++ found.name
  | missingClosingBrace => "Expected a closing brace, \x7d."
  | expectedArgument command parameter expected =>
    "Expected an argument '" ++ parameter ++ "' of type " ++ expected ++ " for command '" ++ command
      ++ "'."
  | expectedTypeArgument command => "Expected a type argument for command '" ++ command ++ "'."
  | unknownType name => "Unknown type '" ++ name ++ "'."
  | unreadableArgument input expected => "Could not parse '" ++ input ++ "' as " ++ expected ++ "."
  | noPermission command => "Insufficient permissions to run '" ++ command ++ "'."
  | undefinedVariable name => "Variable $" ++ name ++ " is not defined."
  | wrongVariableType name expected found =>
    "Variable $" ++ name ++ " holds a " ++ found.name ++ ", expected " ++ expected.name ++ "."
  | exception message => "An exception occurred while running the command: " ++ message
  | pendingFaults => "Tried to run a command on a context that still holds unhandled errors."

end Cause

/-- A cause with what is known of its place. -/
structure Fault where
  cause : Cause
  source : Option String := none
  span : Option Span := none
  trace : Option String := none
  deriving DecidableEq, Repr

namespace Fault

/-- The cause in words. -/
def message (f : Fault) : String := f.cause.message

/-- The fault with a source and a span where it has none of its own. -/
def within (f : Fault) (source : String) (span : Span) : Fault :=
  { f with source := some (f.source.getD source), span := some (f.span.getD span) }

/-- The source above a line that underlines the span.  A span that runs past the end is cut there, and
one mark stands for a span that is empty or does not fit the characters. -/
def underlined (source : String) (span : Span) : String :=
  let cs := source.toList
  let total := Text.size cs
  let start := min span.start total
  let before := (Text.splitAt? start cs).elim 0 (·.1.length)
  let width := max 1 ((Text.slice? start (min span.stop total) cs).elim 0 List.length)
  "\n" ++ source ++ "\n" ++ String.ofList (List.replicate before ' ' ++ List.replicate width '^')

/-- The cause, the underlined source and the trace. -/
def rendered (f : Fault) : String :=
  let place := match f.source, f.span with
    | some source, some span => underlined source span
    | _, _ => ""
  f.message ++ place ++ (f.trace.elim "" ("\n" ++ ·))

end Fault

end KeyConsole.Console
