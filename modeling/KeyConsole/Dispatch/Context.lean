import KeyConsole.Ordered.Sorting

/-!
# Dispatch.Context: which functions are live

A context names the functions that are live in it, and inherits those of its parent.  One context of the
tree is active.  The walk from a context to its root is bounded by the number of contexts.
-/

namespace KeyConsole.Dispatch

/-- A named set of functions with an optional parent. -/
structure Context where
  name : String
  parent : Option String := none
  /-- The functions, each once. -/
  functions : List String := []
  deriving DecidableEq, Inhabited, Repr

namespace Context

/-- Declare a function. -/
def add (c : Context) (function : String) : Context :=
  if c.functions.contains function then c else { c with functions := c.functions ++ [function] }

/-- Withdraw a function. -/
def remove (c : Context) (function : String) : Context :=
  { c with functions := c.functions.filter (· ≠ function) }

/-- Whether the context itself declares a function. -/
def declares (c : Context) (function : String) : Bool := c.functions.contains function

end Context

/-- Why a change of the contexts is refused. -/
inductive ContextFault where
  | alreadyExists (name : String)
  | unknown (name : String)
  | inUse (name : String)
  deriving DecidableEq, Repr

/-- The cause in words. -/
def ContextFault.message : ContextFault → String
  | alreadyExists name => "input context '" ++ name ++ "' already exists"
  | unknown name => "input context '" ++ name ++ "' does not exist"
  | inUse name => "cannot remove input context '" ++ name ++ "' while it is active or has children"

/-- A change of the active context. -/
structure ContextChange where
  old : Option String
  new : String
  deriving DecidableEq, Repr

/-- The contexts, and which one is active. -/
structure Contexts where
  contexts : List Context := []
  active : Option String := none
  deriving Inhabited, Repr

namespace Contexts

/-- The context with a name. -/
def get? (cs : Contexts) (name : String) : Option Context := cs.contexts.find? (·.name = name)

/-- Whether there is a context with a name. -/
def has (cs : Contexts) (name : String) : Bool := (cs.get? name).isSome

/-- The contexts and one more. -/
def extended (cs : Contexts) (name : String) (parent : Option String) : Contexts :=
  { cs with contexts := cs.contexts ++ [{ name, parent }] }

/-- Create a context under an existing parent or under none. -/
def create (cs : Contexts) (name : String) (parent : Option String) : Except ContextFault Contexts :=
  if cs.has name then .error (.alreadyExists name)
  else
    match parent with
    | none => .ok (cs.extended name none)
    | some p => if cs.has p then .ok (cs.extended name (some p)) else .error (.unknown p)

/-- Change the context with a name. -/
def update (cs : Contexts) (name : String) (f : Context → Context) : Contexts :=
  { cs with contexts := cs.contexts.map fun c => if c.name = name then f c else c }

/-- Declare a function in a context, if it exists. -/
def addFunction (cs : Contexts) (name function : String) : Contexts := cs.update name (·.add function)

/-- Withdraw a function from a context, if it exists. -/
def removeFunction (cs : Contexts) (name function : String) : Contexts :=
  cs.update name (·.remove function)

/-- Remove a context that is neither active nor a parent. -/
def remove (cs : Contexts) (name : String) : Except ContextFault Contexts :=
  if !cs.has name then .error (.unknown name)
  else if cs.contexts.any (·.parent = some name) || cs.active = some name then .error (.inUse name)
  else .ok { cs with contexts := cs.contexts.filter (·.name ≠ name) }

/-- The active context. -/
def activeContext? (cs : Contexts) : Option Context := cs.active.bind cs.get?

/-- Make a context active; there is no change if it is so already. -/
def setActive (cs : Contexts) (name : String) : Except ContextFault (Option ContextChange × Contexts) :=
  if !cs.has name then .error (.unknown name)
  else if cs.active = some name then .ok (none, cs)
  else .ok (some ⟨cs.active, name⟩, { cs with active := some name })

/-- The walk to the root, of at most `n` contexts. -/
def ancestryUpTo (cs : Contexts) : Nat → String → List Context
  | 0, _ => []
  | n + 1, name =>
    match cs.get? name with
    | none => []
    | some c => c :: c.parent.elim [] (ancestryUpTo cs n)

/-- A context, its parent, and so on up to its root. -/
def ancestry (cs : Contexts) (name : String) : List Context :=
  cs.ancestryUpTo cs.contexts.length name

/-- Whether a function is live in a context. -/
def isLiveIn (cs : Contexts) (name function : String) : Bool :=
  (cs.ancestry name).any (·.declares function)

/-- Whether a function is live in the active context. -/
def isLive (cs : Contexts) (function : String) : Bool := cs.active.any (cs.isLiveIn · function)

/-- The functions that are live in a context. -/
def functionsOf (cs : Contexts) (name : String) : List String :=
  ((cs.ancestry name).flatMap (·.functions)).eraseDups

/-- The names of the contexts. -/
def names (cs : Contexts) : List String := cs.contexts.map (·.name)

end Contexts

end KeyConsole.Dispatch
