import KeyConsole.CommandLine.Running

/-! # Main: the program -/

namespace KeyConsole.CommandLine

/-- The text of a file; nothing if it cannot be read. -/
def readFile (path : String) : IO (Option String) := do
  try
    return some (← IO.FS.readFile path)
  catch _ =>
    return none

/-- The files in a directory of the user's. -/
def Places.within (dir : String) : Places :=
  { settings := some (dir ++ "/keyshed/config.yaml"), keybinds := some (dir ++ "/keyshed/keybinds.yaml") }

/-- The places of the user's files. -/
def userPlaces : IO Places := do
  match ← IO.getEnv "XDG_CONFIG_HOME" with
  | some dir => return .within dir
  | none => return (← IO.getEnv "HOME").elim {} fun home => .within (home ++ "/.config")

end KeyConsole.CommandLine

open KeyConsole.CommandLine

/-- Run the command line and leave with its code. -/
def main (words : List String) : IO UInt32 := do
  let outcome ← run readFile (← userPlaces) words
  IO.print outcome.output
  if !outcome.complaint.isEmpty then IO.eprintln outcome.complaint
  return outcome.code.toUInt32
