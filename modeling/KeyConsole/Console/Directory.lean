import KeyConsole.Console.Call
import KeyConsole.Console.Parameter
import KeyConsole.Ordered.Sorting

/-!
# Console.Directory: the commands and their signatures

A command has signatures, one for each kind of piped value it takes.  `Command.resolve?` picks the one
for a piped type: a signature for this very type, else one that takes it.
-/

namespace KeyConsole.Console

open Ordered (NameMap)

/-- The types known once the arguments of a command are read. -/
structure TypeFacts where
  piped : Option ValueType := none
  /-- The type arguments. -/
  types : List ValueType := []
  /-- The types of the block arguments. -/
  blocks : List ValueType := []
  /-- The types of the variable arguments, where known. -/
  variableTypes : List (Option ValueType) := []

/-- What a command returns. -/
inductive Returns where
  | fixed (t : ValueType)
  /-- What is piped in. -/
  | piped
  | computed (f : TypeFacts → ValueType)

/-- The type returned. -/
def Returns.type : Returns → TypeFacts → ValueType
  | fixed t, _ => t
  | piped, facts => facts.piped.getD .void
  | computed f, facts => f facts

/-- One implementation of a command. -/
structure Signature where
  subcommand : Option String := none
  /-- The type that has to be piped in. -/
  piped : Option ValueType := none
  /-- The number of type arguments. -/
  typeCount : Nat := 0
  parameters : List Parameter := []
  returns : Returns := .fixed .void
  run : Call → Eval Value

namespace Signature

/-- How well the signature takes a piped type. -/
def fit? (s : Signature) (piped : Option ValueType) : Option Nat :=
  match s.piped, piped with
  | none, none => some 1000
  | some want, some got =>
    if got = want then some 1000 else if got.assignable want then some 100 else none
  | _, _ => none

/-- Whether the signature takes a piped type. -/
def accepts (s : Signature) (piped : Option ValueType) : Bool := (s.fit? piped).isSome

end Signature

/-- A command by name. -/
structure Command where
  name : String
  description : String := ""
  /-- The command converts values, and may be suggested for that. -/
  conversion : Bool := false
  signatures : List Signature := []

namespace Command

/-- Some signature is under a subcommand. -/
def hasSubcommands (c : Command) : Bool := c.signatures.any (·.subcommand.isSome)

/-- The names of the subcommands in order. -/
def subcommands (c : Command) : List String :=
  Ordered.sortedNames (c.signatures.filterMap (·.subcommand))

/-- The signatures under a subcommand, or under none. -/
def under (c : Command) (subcommand : Option String) : List Signature :=
  c.signatures.filter (·.subcommand = subcommand)

/-- How many type arguments follow the name. -/
def typeCount (c : Command) (subcommand : Option String) : Nat :=
  (c.under subcommand).foldl (fun n s => max n s.typeCount) 0

/-- The piped types that signatures ask for, in order, with void for none. -/
def acceptedTypes (c : Command) (subcommand : Option String) : List ValueType :=
  Ordered.withoutRepeats (Ordered.sorted ValueType.le ((c.under subcommand).map (·.piped.getD .void)))

/-- Some signature takes a piped type. -/
def acceptsPiped (c : Command) (piped : Option ValueType) : Bool := c.signatures.any (·.accepts piped)

/-- The better one of what has been chosen so far, by how well it fits and its place, and one more signature. -/
def better (subcommand : Option String) (piped : Option ValueType) (typeCount : Nat) (best : Option (Nat × Nat))
    (s : Signature × Nat) : Option (Nat × Nat) :=
  if s.1.subcommand = subcommand ∧ s.1.typeCount = typeCount then
    match s.1.fit? piped, best with
    | none, best => best
    | some fit, none => some (fit, s.2)
    | some fit, some (bestFit, i) => if fit > bestFit then some (fit, s.2) else some (bestFit, i)
  else best

/-- The place of the signature that fits best; the earlier of two that fit equally well. -/
def resolveIndex? (c : Command) (subcommand : Option String) (piped : Option ValueType)
    (typeCount : Nat) : Option Nat :=
  (c.signatures.zipIdx.foldl (better subcommand piped typeCount) none).map (·.2)

/-- The signature for a subcommand, a piped type and a number of type arguments. -/
def resolve? (c : Command) (subcommand : Option String) (piped : Option ValueType)
    (typeCount : Nat) : Option Signature :=
  (c.resolveIndex? subcommand piped typeCount).bind (c.signatures[·]?)

/-- A command with its subcommand as it is written. -/
def fullName (name : String) : Option String → String
  | none => name
  | some subcommand => name ++ ":" ++ subcommand

/-- All ways to write the command. -/
def spellings (c : Command) : List String :=
  if c.hasSubcommands then c.subcommands.map fun s => fullName c.name (some s) else [c.name]

end Command

/-- The commands by name. -/
structure Directory where
  commands : NameMap Command := .empty
  /-- A newline ends a command. -/
  newlineEnds : Bool := false

namespace Directory

/-- The command with a name. -/
def get? (d : Directory) (name : String) : Option Command := d.commands.get? name

/-- The directory with a command, in place of any other of its name. -/
def register (d : Directory) (c : Command) : Directory :=
  { d with commands := d.commands.put c.name c }

/-- The directory with several commands registered in turn. -/
def registerAll (d : Directory) (cs : List Command) : Directory := cs.foldl register d

/-- A line for every way to write a command. -/
def descriptions (d : Directory) : List String :=
  d.commands.values.flatMap fun c => c.spellings.map fun s => s ++ " - " ++ c.description

/-- The descriptions in order. -/
def listing (d : Directory) : List String := Ordered.sorted Ordered.textLe d.descriptions

/-- The first conversion that takes a type and returns one of those accepted. -/
def conversion? (d : Directory) (source : ValueType) (accepted : List ValueType) : Option String :=
  let converts (s : Signature) : Bool :=
    s.accepts (some source) && s.typeCount = 0 &&
      accepted.any ((s.returns.type { piped := some source }).assignable ·)
  (d.commands.values.find? fun c => c.conversion && c.signatures.any converts).map (·.name)

end Directory

end KeyConsole.Console
