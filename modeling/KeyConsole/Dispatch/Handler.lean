import KeyConsole.Dispatch.Binding

/-!
# Dispatch.Handler: who is told that a function changed

A handler is bound to functions.  It is told of their changes and may consume one, so that no later handler
hears of it.
-/

namespace KeyConsole.Dispatch

/-- A function went down or up. -/
structure Message where
  function : String
  state : BindingState
  deriving DecidableEq, Repr

/-- A handler, by its label. -/
inductive Handler where
  /-- Told when the function goes down and when it goes up; consumes nothing. -/
  | switch (label : String)
  /-- Told when the function goes down; consumes nothing. -/
  | press (label : String)
  /-- Told of every change; consumes those that a test picks. -/
  | answering (label : String) (consumes : Message → Bool)

/-- What a handler is told. -/
inductive Told where
  | enabled (label : String)
  | disabled (label : String)
  | message (label : String) (m : Message)
  deriving DecidableEq, Repr

namespace Handler

/-- What a handler is told about a change. -/
def told (h : Handler) (m : Message) : List Told :=
  match h, m.state with
  | switch label, .down => [.enabled label]
  | switch label, .up => [.disabled label]
  | press label, .down => [.enabled label]
  | press _, .up => []
  | answering label _, _ => [.message label m]

/-- Whether the handler consumes a change. -/
def consumes : Handler → Message → Bool
  | answering _ consumes, m => consumes m
  | _, _ => false

end Handler

end KeyConsole.Dispatch
