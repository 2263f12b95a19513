import KeyConsole.Dispatch.Context
import KeyConsole.Dispatch.Registry
import KeyConsole.Dispatch.Table
import KeyConsole.Keyboard.Event

/-!
# Dispatch.Dispatcher: from keys to functions

A dispatcher knows which keys are held and drives the bindings up and down.  Every change goes to the user
interface first.  Unless that keeps it, it goes on to the handlers of the function, and if there are none, to
the listeners.  All that is told to anybody is noted in a journal, in order.
-/

namespace KeyConsole.Dispatch

open Keyboard (Key Combo Event EventKind Flags)

/-- A change of a function, as it is passed on. -/
structure Change where
  function : String
  state : BindingState
  canFocus : Bool
  deriving DecidableEq, Repr

/-- What the user interface does with a change. -/
structure Reply where
  /-- The change does not go on, but is not dealt with either. -/
  blocks : Bool := false
  /-- The change is dealt with. -/
  handles : Bool := false
  deriving DecidableEq, Repr

/-- The user interface: how it answers. -/
structure UserInterface where
  reply : Change → Reply := fun _ => {}
  /-- A control takes the focus when a binding that may move it goes down. -/
  takesFocus : Bool := false

/-- A listener: it hears of changes and may deal with one. -/
structure Listener where
  label : String
  handles : Change → Bool := fun _ => false

/-- What somebody has been told. -/
inductive Notice where
  /-- The first-chance hook has seen an event. -/
  | event (kind : EventKind) (key : Key)
  /-- A binding has gone from one state to another. -/
  | transition (id : Nat) (before after : BindingState)
  /-- The user interface has seen a change. -/
  | shown (change : Change)
  /-- The user interface has been told that the focus may move, or that it may no longer. -/
  | focus (state : BindingState)
  /-- A change is passed on behind the user interface. -/
  | passed (change : Change)
  /-- A handler has been told. -/
  | handler (told : Told)
  /-- A listener has heard of a change, which was dealt with before or not. -/
  | listener (label : String) (change : Change) (handled : Bool)
  | added (b : Binding)
  | removed (b : Binding)
  deriving DecidableEq, Repr

/-- The keys held, the bindings and everybody who wants to know. -/
structure Dispatcher where
  table : Table := {}
  /-- The id of the next binding. -/
  nextId : Nat := 0
  /-- The keys held. -/
  held : List Key := []
  /-- The modifiers that events report as held. -/
  reported : Flags := {}
  contexts : Contexts := {}
  registry : Registry := {}
  ui : Option UserInterface := none
  listeners : List Listener := []
  /-- Sees events first; its answer says whether it has dealt with one. -/
  hook : Option (Event → EventKind → Bool) := none
  /-- The console commands that bindings have queued. -/
  queued : List String := []
  /-- The functions that keybind files may bind. -/
  known : List String := []
  /-- The functions whose bindings the user has changed. -/
  modified : List String := []
  /-- The shipped bindings, for resets. -/
  shipped : List Registration := []
  /-- Presses are looked at. -/
  enabled : Bool := true
  journal : List Notice := []

/-- A set of names with one more. -/
def withName (names : List String) (name : String) : List String :=
  if names.contains name then names else names ++ [name]

namespace Dispatcher

/-- Note that somebody has been told. -/
def note (d : Dispatcher) (n : Notice) : Dispatcher := { d with journal := d.journal ++ [n] }

/-- Let keybind files bind a function. -/
def registerFunction (d : Dispatcher) (function : String) : Dispatcher :=
  { d with known := withName d.known function }

/-- Whether keybind files may bind a function. -/
def knows (d : Dispatcher) (function : String) : Bool := d.known.contains function

/-- Whether the user has changed the bindings of a function. -/
def isModified (d : Dispatcher) (function : String) : Bool := d.modified.contains function

/-- The functions of the bindings that are down, in table order. -/
def downFunctions (d : Dispatcher) : List String :=
  (d.table.bindings.filter (·.isDown)).map (·.function)

/-- The text for a function that has no binding. -/
def notBound : String := "<not bound>"

/-- The combination of the first binding of a function, as text. -/
def buttonText (d : Dispatcher) (function : String) : String :=
  (d.table.find? function).elim notBound (·.combo.text)

/-- Take the queued commands. -/
def takeCommands (d : Dispatcher) : List String × Dispatcher := (d.queued, { d with queued := [] })

/-- The size, the active context and whether presses are looked at, as text. -/
def summary (d : Dispatcher) : String :=
  "InputManager \x7b bindings: " ++ Decimal.natText d.table.size ++ ", active_context: "
    ++ (d.contexts.active.elim "None" fun name => "Some(" ++ Text.quoted name ++ ")") ++ ", enabled: "
    ++ (if d.enabled then "true" else "false") ++ ", .. \x7d"

/-! ### Passing changes on -/

/-- Tell the handlers of a function, in order, until one consumes the change; says whether one did. -/
def tellHandlers (m : Message) : List Handler → Dispatcher → Bool × Dispatcher
  | [], d => (false, d)
  | h :: rest, d =>
    let d := (h.told m).foldl (fun d t => d.note (.handler t)) d
    if h.consumes m then (true, d) else tellHandlers m rest d

/-- Tell every listener; says whether one has dealt with the change or it was dealt with before. -/
def tellListeners (change : Change) : List Listener → Bool → Dispatcher → Bool × Dispatcher
  | [], handled, d => (handled, d)
  | l :: rest, handled, d =>
    tellListeners change rest (handled || l.handles change)
      (d.note (.listener l.label change handled))

/-- Pass a change on to the handlers of its function or, if there are none, to the listeners.  Says whether
it is dealt with. -/
def pass (change : Change) (handled : Bool) (d : Dispatcher) : Bool × Dispatcher :=
  let (handlers, registry) := d.registry.handlersFor change.function
  let d := { d with registry }.note (.passed change)
  if handlers.isEmpty then tellListeners change d.listeners handled d
  else
    let (consumed, d) := tellHandlers ⟨change.function, change.state⟩ handlers d
    (handled || consumed, d)

/-- Show a change to the user interface. -/
def present (change : Change) (d : Dispatcher) : Reply × Dispatcher :=
  match d.ui with
  | none => ({}, d)
  | some ui => (ui.reply change, d.note (.shown change))

/-- Bring a binding into a state and pass the change on, says whether the change is dealt with.  A command
binding that goes down only queues its command.  What goes up is always passed on; what goes down is so
unless the user interface keeps it. -/
def setState (id : Nat) (state : BindingState) (uiOnly : Bool) (d : Dispatcher) : Bool × Dispatcher :=
  match d.table.get? id with
  | none => (false, d)
  | some b =>
    if b.kind = .command && state = .down then (true, { d with queued := d.queued ++ [b.function] })
    else
      let d := { d with table := d.table.setState id state }.note (.transition id b.state state)
      let change : Change := ⟨b.function, state, b.canFocus⟩
      let (reply, d) := present change d
      if state = .up || !(reply.blocks || reply.handles || uiOnly) then pass change reply.handles d
      else (reply.handles, d)

/-- Offer a press to a binding; says whether it is dealt with.  One that is up goes down.  One that is down
fires again if the press is repeated and it may, and a toggle goes up at a fresh press. -/
def pressBinding (uiOnly isRepeat : Bool) (id : Nat) (d : Dispatcher) : Bool × Dispatcher :=
  match d.table.get? id with
  | none => (false, d)
  | some b =>
    if !b.isDown then setState id .down uiOnly d
    else if isRepeat then if b.canRepeat then setState id .down uiOnly d else (true, d)
    else if b.kind = .toggle then setState id .up false d
    else (false, d)

/-- Offer a press to bindings in order, until it is dealt with. -/
def pressAll (uiOnly isRepeat : Bool) : List Nat → Dispatcher → Dispatcher
  | [], d => d
  | id :: rest, d =>
    let (handled, d) := pressBinding uiOnly isRepeat id d
    if handled then d else pressAll uiOnly isRepeat rest d

/-- Let a binding go up, if it is down and no toggle. -/
def releaseBinding (d : Dispatcher) (id : Nat) : Dispatcher :=
  match d.table.get? id with
  | none => d
  | some b => if b.state = .up || b.kind = .toggle then d else (setState id .up false d).2

/-! ### Keys -/

/-- Whether a key is held or reported as held. -/
def isPressed (d : Dispatcher) (k : Key) : Bool := d.held.contains k || d.reported.has k

/-- Whether every key of a combination is pressed. -/
def isFullyPressed (d : Dispatcher) (combo : Combo) : Bool := combo.keys.all d.isPressed

/-- The binding can fire in the active context. -/
def isEligible (d : Dispatcher) (b : Binding) : Bool :=
  b.kind = .command || d.contexts.isLive b.function

/-- Let every live binding go up that uses a key and is fully pressed; says whether one of them may move the
focus. -/
def releaseKey (k : Key) (d : Dispatcher) : Bool × Dispatcher :=
  let releasing := d.table.bindings.filter fun b =>
    d.contexts.isLive b.function && b.combo.contains k && d.isFullyPressed b.combo
  (releasing.any (·.canFocus), (releasing.map (·.id)).foldl releaseBinding d)

/-- Take over one flag of an event.  A flag that goes off releases what it held, unless the key itself is
held. -/
def takeFlag (flags : Flags) (k : Key) (d : Dispatcher) : Bool × Dispatcher :=
  if d.reported.has k = flags.has k then (false, d)
  else
    let (focus, d) := if !flags.has k && !d.held.contains k then releaseKey k d else (false, d)
    (focus, { d with reported := d.reported.set k (flags.has k) })

/-- Take over the flags of an event; says whether a binding that may move the focus was released. -/
def takeFlags (flags : Flags) (d : Dispatcher) : Bool × Dispatcher :=
  Flags.keys.foldl (fun (focus, d) k =>
    let (more, d) := takeFlag flags k d
    (focus || more, d)) (false, d)

/-- What a press has found in the table so far. -/
structure Matching where
  /-- The combination that fires. -/
  combo : Option Combo := none
  /-- The bindings to press. -/
  pressed : List Nat := []
  /-- The bindings of smaller combinations to release. -/
  released : List Nat := []
  canFocus : Bool := false
  allowSubCombos : Bool := false
  deriving DecidableEq, Repr

/-- Look at one more binding.  The first combination that contains the key fires, and all its bindings are
pressed.  Smaller combinations behind are pressed along if a binding of it allows that, else released. -/
def Matching.step (d : Dispatcher) (k : Key) (m : Matching) (b : Binding) : Matching :=
  if !(d.isEligible b && d.isFullyPressed b.combo) then m
  else if (m.combo.all (· = b.combo)) && b.combo.contains k then
    { m with
      combo := some b.combo
      pressed := m.pressed ++ [b.id]
      canFocus := m.canFocus || b.canFocus
      allowSubCombos := m.allowSubCombos || b.allowSubCombos }
  else if m.combo.any (·.covers b.combo) then
    if m.allowSubCombos then { m with pressed := m.pressed ++ [b.id] }
    else { m with released := m.released ++ [b.id] }
  else m

/-- What a press of a key finds. -/
def matching (d : Dispatcher) (k : Key) : Matching := d.table.bindings.foldl (Matching.step d k) {}

/-- Ask the user interface whether a control takes the focus. -/
def offerFocus (d : Dispatcher) : Bool × Dispatcher :=
  match d.ui with
  | none => (false, d)
  | some ui => (ui.takesFocus, d.note (.focus .down))

/-- Show an event to the hook. -/
def askHook (e : Event) (kind : EventKind) (d : Dispatcher) : Event × Dispatcher :=
  match d.hook with
  | none => (e, d)
  | some hook => ({ e with handled := e.handled || hook e kind }, d.note (.event kind e.key))

/-- A key goes down or is held.  Answers the event, with the hook's mark. -/
def keyDown (e : Event) (d : Dispatcher) : Event × Dispatcher :=
  if !d.enabled || e.key = .unknown then (e, d)
  else
    let (e, d) := askHook e (if e.isRepeat then .repeat else .down) d
    if e.handled then (e, d)
    else
      let (_, d) := takeFlags e.flags d
      let d := { d with held := if d.held.contains e.key then d.held else e.key :: d.held }
      let m := d.matching e.key
      let d := m.released.foldl releaseBinding d
      let (uiOnly, d) := if m.canFocus then offerFocus d else (false, d)
      (e, pressAll uiOnly e.isRepeat m.pressed d)

/-- A key goes up, and with it every binding that used it.  The hook's mark does not stop that. -/
def keyUp (e : Event) (d : Dispatcher) : Event × Dispatcher :=
  if e.key = .unknown then (e, d)
  else
    let (e, d) := askHook e .up d
    let (focus, d) := releaseKey e.key d
    let d := { d with held := d.held.filter (· ≠ e.key) }
    let (more, d) := takeFlags e.flags d
    if (focus || more) && d.ui.isSome then (e, d.note (.focus .up)) else (e, d)

/-! ### Contexts -/

/-- Make a context active.  Bindings that are down and whose function is no longer live go up. -/
def setActiveContext (name : String) (d : Dispatcher) : Except ContextFault Dispatcher := do
  let (change, contexts) ← d.contexts.setActive name
  let d := { d with contexts }
  match change with
  | some ⟨some old, new⟩ =>
    let kept := contexts.functionsOf new
    let dropped := (contexts.functionsOf old).filter (!kept.contains ·)
    let down := d.table.bindings.filter fun b => b.isDown && dropped.contains b.function
    return (down.map (·.id)).foldl (fun d id => (setState id .up false d).2) d
  | _ => return d

/-! ### Bindings -/

/-- Add a binding for a registration; nothing if it has no base key.  Answers its id. -/
def insertBinding (r : Registration) (byUser : Bool) (d : Dispatcher) : Option (Nat × Dispatcher) :=
  (Binding.ofRegistration? d.nextId r).map fun b =>
    let d := { d with
      nextId := d.nextId + 1
      modified := if byUser then withName d.modified r.function else d.modified
      table := d.table.insert b }
    (b.id, d.note (.added b))

/-- Add a binding on the user's behalf. -/
def registerBinding (r : Registration) (d : Dispatcher) : Option (Nat × Dispatcher) :=
  insertBinding r true d

/-- Take a binding out. -/
def deleteBinding (id : Nat) (byUser : Bool) (d : Dispatcher) : Option (Binding × Dispatcher) :=
  (d.table.get? id).map fun b =>
    let d := { d with
      table := d.table.remove id
      modified := if byUser then withName d.modified b.function else d.modified }
    (b, d.note (.removed b))

/-- Take a binding out on the user's behalf. -/
def removeBinding (id : Nat) (d : Dispatcher) : Option (Binding × Dispatcher) := deleteBinding id true d

/-- Drop the user's changes to a function and bring its shipped bindings back. -/
def resetFunction (d : Dispatcher) (function : String) : Dispatcher :=
  let ids := (d.table.bindingsFor function).map (·.id)
  let d := ids.foldl (fun d id => (deleteBinding id false d).elim d (·.2)) d
  let d := { d with modified := d.modified.filter (· ≠ function) }
  let shipped := d.shipped.filter (·.function = function)
  shipped.foldl (fun d r => (insertBinding r false d).elim d (·.2)) d

/-- Reset some functions, one after the other. -/
def resetFunctions (functions : List String) (d : Dispatcher) : Dispatcher :=
  functions.foldl resetFunction d

/-- Reset every function that the user has changed. -/
def resetAll (d : Dispatcher) : Dispatcher := resetFunctions d.modified d

end Dispatcher

end KeyConsole.Dispatch
