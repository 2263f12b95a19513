import KeyConsole.Console.Builtin.Lists

/-!
# Console.Builtin: the commands of every console

Besides numbers and lists these are the commands on variables, on types, and for writing lines.
-/

namespace KeyConsole.Console.Builtin

/-- The type of the first variable, if it is known. -/
def typeOfFirstVariable (facts : TypeFacts) : ValueType := (facts.variableTypes.head?.bind id).getD .any

/-- The first type argument. -/
def firstType (facts : TypeFacts) : ValueType := facts.types.head?.getD .any

/-- The commands on variables. -/
def storage : List Command := [
  { name := "=>"
    description := "Stores the piped value in a variable and passes it on"
    signatures := [{
      piped := some .any
      parameters := [⟨"target", .assign⟩]
      returns := .piped
      run := fun c => do
        let name ← c.variableName 0
        Call.setVariable name c.piped
        return c.piped }] },
  { name := "var"
    description := "Reads a variable"
    signatures := [{
      parameters := [⟨"name", .variable⟩]
      returns := .computed typeOfFirstVariable
      run := fun c => do Call.readVariable (← c.variableName 0) .any }] },
  { name := "val"
    description := "Reads a variable, checking it holds the given type"
    signatures := [{
      typeCount := 1
      parameters := [⟨"name", .variable⟩]
      returns := .computed firstType
      run := fun c => do
        let t ← c.typeArgument 0
        Call.readVariable (← c.variableName 0) t }] }]

/-- The other commands. -/
def others : List Command := [
  { name := "echo"
    description := "Writes a line to the console"
    signatures := [{
      parameters := [⟨"text", .value .string⟩]
      run := fun c => do
        let line ← c.string 0
        Call.writeLine line
        return .void }] },
  { name := "types"
    description := "Name of the piped value's type"
    signatures := [{
      piped := some .any
      returns := .fixed .string
      run := fun c => return .string c.piped.type.name }] },
  { name := "help"
    description := "Lists every command"
    signatures := [{
      run := fun c => do
        c.listing.forM Call.writeLine
        return .void }] }]

/-- All commands. -/
def commands : List Command := literals ++ numbers ++ lists ++ storage ++ conversions ++ others

end KeyConsole.Console.Builtin

namespace KeyConsole.Console

/-- The directory of the built-in commands. -/
def Directory.builtin : Directory := Directory.registerAll {} Builtin.commands

end KeyConsole.Console
