import KeyConsole.Keyboard.KeyName
import KeyConsole.Text.Quoted

/-!
# CommandLine.EventToken: events as words

A word stands for an event by its first character: `+` for a key that goes down, `-` for one that goes up,
`*` for one that is held, and `@` for a change of the context.
-/

namespace KeyConsole.CommandLine

open Keyboard (Key)

/-- An event that is replayed. -/
inductive EventToken where
  | down (k : Key)
  | up (k : Key)
  | held (k : Key)
  | context (name : String)
  deriving DecidableEq, Repr

/-- Why a word stands for no event. -/
inductive EventFault where
  | noPrefix (word : String)
  | noContext
  | unknownKey (name : String)
  deriving DecidableEq, Repr

/-- The fault in words. -/
def EventFault.message : EventFault → String
  | noPrefix word => "'" ++ word ++ "' should start with +, -, * or @"
  | noContext => "'@' needs a context name"
  | unknownKey name => Key.unknownNameMessage name

namespace EventToken

/-- The event of a key with a name. -/
def ofKey (make : Key → EventToken) (name : String) : Except EventFault EventToken :=
  (Key.ofName? name).elim (.error (.unknownKey name)) fun k => .ok (make k)

/-- The event that a word stands for. -/
def read (word : String) : Except EventFault EventToken :=
  match word.toList with
  | '@' :: name => if name.isEmpty then .error .noContext else .ok (context (String.ofList name))
  | '+' :: name => ofKey down (String.ofList name)
  | '-' :: name => ofKey up (String.ofList name)
  | '*' :: name => ofKey held (String.ofList name)
  | _ => .error (.noPrefix word)

/-- An event as text. -/
def text : EventToken → String
  | down k => "Down(" ++ k.name ++ ")"
  | up k => "Up(" ++ k.name ++ ")"
  | held k => "Repeat(" ++ k.name ++ ")"
  | context name => "Context(" ++ Text.quoted name ++ ")"

end EventToken

end KeyConsole.CommandLine
