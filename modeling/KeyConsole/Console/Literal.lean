import KeyConsole.Console.Reading
import KeyConsole.Console.Value
import KeyConsole.Decimal.Reading

/-!
# Console.Literal: values written out

A literal is read as a value of a given type: a number or truth value is a bare word, a text a bare word
or stands in double quotes, and a list stands in brackets with commas between its items.  For the type
`any` the form decides.
-/

namespace KeyConsole.Console

open Reading Text

/-- A character of a bare word. -/
def isLiteralChar (c : Char) : Bool :=
  !isBlank c && !(c = ';' || c = '|' || c = '{' || c = '}' || c = '[' || c = ']' || c = ',' || c = '"')

namespace Literal

/-- The bare word that is next, or nothing. -/
def wordAhead : Reading String := look fun c => (c.peekWord isLiteralChar).getD ""

/-- Fail because `input`, which begins at `start`, is no literal of a type. -/
def unreadable {α : Type} (start : Nat) (input : String) (t : ValueType) : Reading α := do
  refuse (.unreadableArgument input t.name) (.between start (max (← offset) (start + 1)))

/-- The truth value of a word. -/
def bool? (w : String) : Option Bool :=
  if w = "true" then some true else if w = "false" then some false else none

/-- The integer of a word. -/
def int? (w : String) : Option Int64 := (Decimal.readInt w.toList).toOption

/-- The float of a word. -/
def float? (w : String) : Option Float := (Decimal.readFloat w.toList).toOption

/-- What a character behind a backslash stands for. -/
def unescape (c : Char) : Char := if c = 'n' then '\n' else if c = 't' then '\t' else c

/-- The text up to the closing quote, and what is behind it. -/
def unquote? : List Char → Option (List Char × List Char)
  | [] => none
  | '"' :: rest => some ([], rest)
  | ['\\'] => none
  | '\\' :: c :: rest => (unquote? rest).map fun (text, after) => (unescape c :: text, after)
  | c :: rest => (unquote? rest).map fun (text, after) => (c :: text, after)

/-- A scalar from the bare word that is next. -/
def scalar (t : ValueType) (value? : String → Option Value) : Reading Value := do
  let start ← offset
  let w := (← step (Cursor.word isLiteralChar)).getD ""
  match value? w with
  | some v => return v
  | none => unreadable start w t

/-- A text: the bare word that is next, or what stands in double quotes. -/
def text : Reading Value := do
  let start ← offset
  if ← eat '"' then
    let c ← get
    match unquote? c.rest with
    | some (s, rest) =>
      set { c with rest, offset := c.offset + (size c.rest - size rest) }
      return .string (String.ofList s)
    | none =>
      set { c with rest := [], offset := c.offset + size c.rest }
      unreadable start (String.ofList ('"' :: c.rest)) .string
  else
    match ← step (Cursor.word isLiteralChar) with
    | some w => return .string w
    | none => unreadable start "" .string

/-- One item of a list, with what `rest` makes of those behind it; `read` are those in front, the last one first. -/
def round (t : ValueType) (item : Reading Value) (rest : List Value → Reading (List Value)) (read : List Value) :
    Reading (List Value) := do
  skipSpace
  if ← eat ']' then return read.reverse
  let v ← item
  skipSpace
  if ← eat ',' then rest (v :: read)
  else if ← eat ']' then return (v :: read).reverse
  else
    let start ← offset
    refuse (.unreadableArgument (← wordAhead) t.name) (.between start (start + 1))

/-- The items of a list up to its closing bracket, fewer of them than a bound. -/
def items (t : ValueType) (item : Reading Value) : Nat → List Value → Reading (List Value)
  | 0 => fun _ => failure
  | n + 1 => round t item (items t item n)

/-- All items of a list up to its closing bracket: there are fewer than characters left. -/
def allItems (t : ValueType) (item : Reading Value) (read : List Value) : Reading (List Value) := do
  items t item ((← look fun c => c.rest.length) + 1) read

/-- A list in brackets. -/
def list (t : ValueType) (item : Reading Value) : Reading Value := do
  let start ← offset
  match (← get).slice? '[' ']' with
  | none => unreadable start (← wordAhead) t
  | some (child, after) =>
    set after
    return .list (← inChild child (allItems t item []))

/-- A bare word as the first it can be of integer, float, truth value and text. -/
def ofWord (w : String) : Value :=
  match int? w, float? w, bool? w with
  | some n, _, _ => .int n
  | none, some x, _ => .float x
  | none, none, some b => .bool b
  | none, none, none => .string w

/-- A literal of any kind that is a bare word. -/
def bareWord : Reading Value := do
  let start ← offset
  match ← step (Cursor.word isLiteralChar) with
  | some w => return ofWord w
  | none => unreadable start "" .any

/-- A literal of a type; `literals` reads the items of a list. -/
def form (literals : ValueType → Reading Value) (t : ValueType) : Reading Value := do
  skipSpace
  match t with
  | .void => unreadable (← offset) "" t
  | .int => scalar t fun w => (int? w).map .int
  | .float => scalar t fun w => (float? w).map .float
  | .bool => scalar t fun w => (bool? w).map .bool
  | .string => text
  | .list element => list t (literals element)
  | .any =>
    match ← look Cursor.peek with
    | some '[' => list (.list .any) (literals .any)
    | some '"' => text
    | _ => bareWord

/-- A literal of a type, with lists nested less deep than a bound. -/
def nested : Nat → ValueType → Reading Value
  | 0 => fun _ => failure
  | depth + 1 => form (nested depth)

end Literal

/-- A literal of a type. -/
def literal (t : ValueType) : Reading Value := do
  Literal.nested ((← look fun c => c.rest.length) + 1) t

/-- The value of a text that holds one literal of any kind and nothing else. -/
def readValue (source : String) : Except Fault Value :=
  let whole : Fault :=
    { cause := .unreadableArgument source ValueType.any.name
      span := some (.between 0 (size source.toList)) }
  match (literal .any).run.run (.ofSource source) with
  | (none, c) => .error (c.fault.getD whole)
  | (some v, c) => if c.skipSpace.atEnd then .ok v else .error whole

end KeyConsole.Console
