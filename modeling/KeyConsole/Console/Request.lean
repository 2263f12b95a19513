import KeyConsole.Console.Parameter
import KeyConsole.Ordered.NameMap

/-!
# Console.Request: what could be typed next

Reading an unfinished expression leaves a request behind: the kind of thing that could come next, and
what is typed of it so far.
-/

namespace KeyConsole.Console

open Ordered (NameMap)

/-- What could come next. -/
inductive Request where
  /-- A command that takes the piped type. -/
  | commands (piped : Option ValueType) (typed : String)
  /-- A subcommand of a command. -/
  | subcommands (command : String) (piped : Option ValueType) (typed : String)
  /-- A value or variable argument, with the texts known to fit. -/
  | argument (hint : String) (options : List String)
  /-- A block argument: an opening brace, or a command that takes the type piped in. -/
  | block (hint : String) (piped : Option ValueType)
  /-- The name of a type. -/
  | types (typed : String)
  /-- One of some variables. -/
  | names (typed : String) (candidates : List String)
  deriving DecidableEq, Repr

namespace Request

/-- The variables of the types that a test admits, as they are written. -/
def variablesOf (known : NameMap ValueType) (admits : ValueType → Bool) : List String :=
  known.entries.filterMap fun (name, t) => if admits t then some ("$" ++ name) else none

/-- The request for an argument that has not been started. -/
def forParameter (p : Parameter) (piped : Option ValueType) (known : NameMap ValueType) : Request :=
  match p.kind with
  | .value t =>
    let constants := if t = .bool then ["false", "true"] else []
    .argument p.hint (constants ++ variablesOf known (·.assignable t))
  | .variable => .argument p.hint (variablesOf known fun _ => true)
  | .assign => .argument p.hint []
  | .block feed _ => .block p.hint (feed.type piped)

end Request

end KeyConsole.Console
