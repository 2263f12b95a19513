import KeyConsole.Yaml.Meaning
import KeyConsole.Yaml.Node.Reading

/-!
# Yaml.Decoding: values from nodes

A decoder reads a value of one kind from a node, and fails if the node does not fit.  What is written without
quotes may be a truth value or a number.  Where a list or fields are expected, nothing at all may be written.

A short document can say much by aliases of aliases.  So the aliases that decoding follows are counted, and
there is a bound for them.
-/

namespace KeyConsole.Yaml

/-- A step of decoding, which knows the document and how many aliases have been followed. -/
abbrev Decode := ReaderT Document (StateT Nat Option)

/-- A reader of values. -/
abbrev Decoder (α : Type) := Node → Decode α

namespace Decoder

/-- The node that a node stands for. -/
def followed : Node → Decode Node
  | .alias number => do
    modify (· + 1)
    match (← read).anchored.lookup number with
    | some node => return node
    | none => failure
  | node => return node

/-- Something that has to be there. -/
def given {α : Type} : Option α → Decode α
  | some a => return a
  | none => failure

/-- The text of a node, however it is written. -/
def text : Decoder String := fun n => do
  match ← followed n with
  | .text _ _ s => return s
  | _ => failure

/-- A text that may be left out.  It is left out if nothing is written, or a plain word for nothing. -/
def optionalText : Decoder (Option String) := fun n => do
  match ← followed n with
  | .text none .plain s => return if s.isEmpty || isNull s then none else some s
  | .text (some tag) .plain s =>
    if tag ≠ .common "null" then return some s else if isNull s then return none else failure
  | .text _ _ s => return some s
  | _ => failure

/-- A plain text with a meaning of its own, or a literal one with the tag for it. -/
def meant {α : Type} (kind : String) (read? : String → Option α) : Decoder α := fun n => do
  match ← followed n with
  | .text _ .plain s => given (read? s)
  | .text tag .literal s => if tag = some (.common kind) then given (read? s) else failure
  | _ => failure

/-- A truth value. -/
def flag : Decoder Bool := meant "bool" flag?

/-- A natural number below a bound. -/
def natural (bound : Nat) : Decoder Nat := meant "int" fun s => (natural? s).filter (· < bound)

/-- An integer of so many bits. -/
def integer (bits : Nat) : Decoder Int :=
  meant "int" fun s => (integer? s).filter fun n => -Int.pow 2 (bits - 1) ≤ n && n < Int.pow 2 (bits - 1)

/-- One of some words, or a tag of its own for it, behind which nothing is written. -/
def word {α : Type} (read? : String → Option α) : Decoder α := fun n => do
  match ← followed n with
  | .text tag style s =>
    match tag.bind Tag.ownKind? with
    | some kind => if style = .plain && (s.isEmpty || isNull s) then given (read? kind) else failure
    | none => given (read? s)
  | _ => failure

/-- Nothing is written. -/
def isNothing : Node → Bool
  | .text _ .plain s => s.isEmpty
  | _ => false

/-- A list. -/
def list {α : Type} (item : Decoder α) : Decoder (List α) := fun n => do
  match ← followed n with
  | .sequence items => items.mapM item
  | n => if isNothing n then return [] else failure

/-- Fields by name.  None of the known ones may be there twice, others are passed over. -/
def fields {α : Type} (known : List String) (read : (String → Option Node) → Decode α) :
    Decoder α := fun n => do
  let entries ←
    match ← followed n with
    | .mapping entries => pure entries
    | n => if isNothing n then pure [] else failure
  let fields ← entries.mapM fun (key, value) => do return (← text key, value)
  if known.any fun k => fields.countP (·.1 = k) > 1 then failure
  else read fun name => fields.lookup name

/-- A field that may be left out for a value in its place. -/
def orElse {α : Type} (decode : Decoder α) (missing : α) (field : Option Node) : Decode α :=
  field.elim (pure missing) decode

end Decoder

/-- How many aliases can be followed for each part of a document. -/
def aliasesPerPart : Nat := 100

/-- Read a document with a decoder. -/
def Document.decode? {α : Type} (decoder : Decoder α) (d : Document) : Option α := do
  let (a, followed) ← ((decoder d.root).run d).run 0
  if followed ≤ aliasesPerPart * d.root.size then some a else none

/-- Read a source with a decoder. -/
def decode? {α : Type} (decoder : Decoder α) (source : String) : Option α :=
  (Document.read? source).bind (Document.decode? decoder)

end KeyConsole.Yaml
