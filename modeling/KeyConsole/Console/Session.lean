import KeyConsole.Console.Fault
import KeyConsole.Console.Value
import KeyConsole.Ordered.NameMap

/-!
# Console.Session: where pipelines run

A session holds what running leaves behind: the lines written, the faults not yet handled, the variables,
and the commands that may not run.  Its permission epoch grows with every change of the latter.
-/

namespace KeyConsole.Console

open Ordered (NameMap)

/-- The state that pipelines run in. -/
structure Session where
  output : Array String := #[]
  faults : List Fault := []
  store : NameMap Value := .empty
  denied : List String := []
  epoch : Nat := 0

namespace Session

/-- Write a line. -/
def writeLine (line : String) (s : Session) : Session := { s with output := s.output.push line }

/-- Add a fault. -/
def report (f : Fault) (s : Session) : Session := { s with faults := s.faults ++ [f] }

/-- Forget the faults. -/
def clearFaults (s : Session) : Session := { s with faults := [] }

/-- Whether a command may run. -/
def permits (s : Session) (command : String) : Bool := !s.denied.contains command

/-- Forbid a command. -/
def deny (command : String) (s : Session) : Session :=
  if s.denied.contains command then s
  else { s with denied := command :: s.denied, epoch := s.epoch + 1 }

/-- Allow a command again. -/
def allow (command : String) (s : Session) : Session :=
  if s.denied.contains command then
    { s with denied := s.denied.filter (· ≠ command), epoch := s.epoch + 1 }
  else s

/-- Set a variable. -/
def setVariable (name : String) (v : Value) (s : Session) : Session :=
  { s with store := s.store.put name v }

/-- The types of the variables. -/
def variableTypes (s : Session) : NameMap ValueType :=
  ⟨s.store.entries.map fun (name, v) => (name, v.type)⟩

end Session

end KeyConsole.Console
