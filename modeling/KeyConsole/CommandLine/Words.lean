/-!
# CommandLine.Words: options and arguments

The words of a command line are options with their values, flags, and arguments.  A double hyphen makes
arguments of all words behind it.  Words are looked at one after the other, and the first that does not fit
is the fault.
-/

namespace KeyConsole.CommandLine

/-- What is asked for in place of a command. -/
inductive Question where
  | help
  | version
  deriving DecidableEq, Repr

/-- Why a command line does not fit. -/
inductive UsageFault where
  | unexpected (word : String)
  | missingValue (option : String)
  | emptyValue (option : String)
  | repeated (option : String)
  | missing (argument : String)
  | unknownCommand (word : String)
  | badValue (word message : String)
  deriving DecidableEq, Repr

/-- The fault in words. -/
def UsageFault.message : UsageFault → String
  | unexpected word => "unexpected argument '" ++ word ++ "' found"
  | missingValue option => "a value is required for '--" ++ option ++ "' but none was supplied"
  | emptyValue option => "a value is required for '--" ++ option ++ "' but none was supplied"
  | repeated option => "the argument '--" ++ option ++ "' cannot be used multiple times"
  | missing argument => "the following required arguments were not provided: <" ++ argument ++ ">"
  | unknownCommand word => "unrecognized subcommand '" ++ word ++ "'"
  | badValue word message => "invalid value '" ++ word ++ "': " ++ message

/-- Why no command comes out of a command line. -/
inductive Stop where
  | question (q : Question)
  | fault (f : UsageFault)
  deriving DecidableEq, Repr

/-- What may stand on a part of a command line. -/
structure Grammar where
  /-- The options, which all have a value. -/
  options : List String
  /-- The options whose value must not be empty. -/
  paths : List String := []
  /-- There is a flag for the version. -/
  versioned : Bool := false
  /-- The number of arguments, if it is bounded. -/
  most : Option Nat := none
  /-- Arguments may begin with a hyphen.  Behind the first argument there are arguments only. -/
  hyphens : Bool := false
  /-- Reading ends with the first argument. -/
  stops : Bool := false

/-- What a word is by its form. -/
inductive Form where
  | argument
  | doubleHyphen
  | option (name : String) (value : Option String)
  | question (q : Question)
  | unknown
  deriving DecidableEq, Repr

namespace Grammar

/-- The question that a flag with a long name asks. -/
def longQuestion? (g : Grammar) (name : String) : Option Question :=
  if name = "help" then some .help
  else if name = "version" && g.versioned then some .version
  else none

/-- The question that a flag of one letter asks. -/
def shortQuestion? (g : Grammar) (c : Char) : Option Question :=
  if c = 'h' then some .help else if c = 'V' && g.versioned then some .version else none

/-- A word with a hyphen that means nothing: an argument, if these may begin so. -/
def unmatched (g : Grammar) : Form := if g.hyphens then .argument else .unknown

/-- The form of what stands behind two hyphens. -/
def longForm (g : Grammar) (body : List Char) : Form :=
  let name := String.ofList (body.takeWhile (· ≠ '='))
  let value := match body.dropWhile (· ≠ '=') with
    | _ :: value => some (String.ofList value)
    | [] => none
  if g.options.contains name then .option name value
  else
    match g.longQuestion? name with
    | some q => if value.isNone then .question q else .unknown
    | none => g.unmatched

/-- The form of letters behind one hyphen. -/
def shortForm (g : Grammar) (letters : List Char) : Form :=
  if g.hyphens && letters.any fun c => (g.shortQuestion? c).isNone then .argument
  else ((letters.head?.bind g.shortQuestion?).map Form.question).getD .unknown

/-- The form of a word. -/
def form (g : Grammar) (word : String) : Form :=
  match word.toList with
  | ['-', '-'] => .doubleHyphen
  | '-' :: '-' :: body => g.longForm body
  | ['-'] => .argument
  | '-' :: letters => g.shortForm letters
  | _ => .argument

end Grammar

/-- The words read so far. -/
structure Words where
  /-- The options with their values. -/
  values : List (String × String) := []
  /-- The arguments, the last one first. -/
  arguments : List String := []
  deriving DecidableEq, Repr

namespace Words

/-- The value of an option. -/
def value? (w : Words) (option : String) : Option String := w.values.lookup option

/-- Add an option, which must not be there yet. -/
def setValue (g : Grammar) (w : Words) (option value : String) : Except Stop Words :=
  if (w.value? option).isSome then .error (.fault (.repeated option))
  else if value.isEmpty && g.paths.contains option then .error (.fault (.emptyValue option))
  else .ok { w with values := (option, value) :: w.values }

/-- Add an argument, if there may be one more. -/
def addArgument (g : Grammar) (w : Words) (word : String) : Except Stop Words :=
  if g.most.all (w.arguments.length < ·) then .ok { w with arguments := word :: w.arguments }
  else .error (.fault (.unexpected word))

/-- Read words, all of them arguments if `only` says so.  Answers also the words that are left. -/
def read (g : Grammar) : Bool → Words → List String → Except Stop (Words × List String)
  | _, w, [] => .ok (w, [])
  | only, w, word :: rest => do
    match if only then Form.argument else g.form word with
    | .argument =>
      if g.stops then return (w, word :: rest)
      read g (only || g.hyphens) (← w.addArgument g word) rest
    | .doubleHyphen => if g.stops then .error (stopped rest) else read g true w rest
    | .option name (some value) => read g only (← w.setValue g name value) rest
    | .option name none =>
      match rest with
      | [] => .error (.fault (.missingValue name))
      | value :: rest =>
        if g.form value = .argument then read g only (← w.setValue g name value) rest
        else .error (.fault (.missingValue name))
    | .question q => .error (.question q)
    | .unknown => .error (.fault (.unexpected word))
where
  stopped : List String → Stop
    | [] => .fault (.missing "COMMAND")
    | word :: _ => .fault (.unexpected word)

/-- The only argument. -/
def only (w : Words) (name : String) : Except Stop String :=
  match w.arguments with
  | [word] => .ok word
  | _ => .error (.fault (.missing name))

end Words

end KeyConsole.CommandLine
