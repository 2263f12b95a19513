import KeyConsole.Dispatch.FiringOrder
import KeyConsole.Dispatch.Handler
import KeyConsole.Ordered.Sorting
import KeyConsole.Decimal.IntText
import KeyConsole.Text.Quoted

/-!
# Dispatch.Registry: handlers by owner, in their firing order

Owners bind handlers to functions, and may ask that a bind comes before or after those of other owners.  The
firing orders are worked out when they are asked for and kept until the binds change.
-/

namespace KeyConsole.Dispatch

/-- A handler bound to a function. -/
structure Bind where
  function : String
  handler : Handler
  /-- Owners whose binds for the function come later. -/
  before : List String := []
  /-- Owners whose binds for the function come first. -/
  after : List String := []

/-- A bind with its owner. -/
structure OwnedBind where
  owner : String
  bind : Bind

/-- Why binds are refused, or cannot be ordered. -/
inductive RegistryFault where
  | ownerRegistered (owner : String)
  | cycle (function : String) (owners : List String)
  deriving DecidableEq, Repr

/-- The cause in words. -/
def RegistryFault.message : RegistryFault → String
  | ownerRegistered owner => "owner '" ++ owner ++ "' already has command binds registered"
  | cycle function owners =>
    "command binds for '" ++ function ++ "' form a cycle between " ++ ", ".intercalate owners

/-- The binds in the order of their registration, and the firing orders as last worked out. -/
structure Registry where
  binds : List OwnedBind := []
  resolved : List (String × List Handler) := []
  /-- The binds have changed since. -/
  stale : Bool := false

namespace Registry

/-- Whether an owner has binds. -/
def hasOwner (r : Registry) (owner : String) : Bool := r.binds.any (·.owner = owner)

/-- Add the binds of an owner that has none. -/
def register (r : Registry) (owner : String) (binds : List Bind) : Except RegistryFault Registry :=
  if r.hasOwner owner then .error (.ownerRegistered owner)
  else .ok { r with binds := r.binds ++ binds.map fun bind => { owner, bind }, stale := true }

/-- Remove the binds of an owner. -/
def unregister (r : Registry) (owner : String) : Registry :=
  if r.hasOwner owner then { r with binds := r.binds.filter (·.owner ≠ owner), stale := true } else r

/-- The owners, each once, in the order of their registration. -/
def owners (r : Registry) : List String := (r.binds.map (·.owner)).eraseDups

/-- The functions with binds, each once, in the order of their first bind. -/
def functions (r : Registry) : List String := (r.binds.map (·.bind.function)).eraseDups

/-- The binds of a function in the order of their registration. -/
def bindsFor (r : Registry) (function : String) : List OwnedBind :=
  r.binds.filter (·.bind.function = function)

/-- The edges from the bind at a position to those that have to come later, one for each of the two that says
so.  No bind has to wait for itself. -/
def edgesFrom (binds : List OwnedBind) (c : OwnedBind) (i : Nat) : List Nat :=
  binds.zipIdx.flatMap fun (b, j) =>
    if j = i then []
    else (if b.bind.after.contains c.owner then [j] else [])
      ++ (if c.bind.before.contains b.owner then [j] else [])

/-- The edges among some binds. -/
def edges (binds : List OwnedBind) : List (List Nat) := binds.zipIdx.map fun (c, i) => edgesFrom binds c i

/-- The binds of a function in firing order, or the owners of those that are stuck. -/
def ordered (r : Registry) (function : String) : Except RegistryFault (List OwnedBind) :=
  let binds := r.bindsFor function
  match FiringOrder.resolve (edges binds) with
  | .ok order => .ok (order.filterMap (binds[·]?))
  | .error stuck =>
    .error (.cycle function ((stuck.filterMap (binds[·]?)).map (·.owner)).eraseDups)

/-- The handlers of a function in firing order; in the order of registration if that cannot be. -/
def firing (r : Registry) (function : String) : List Handler :=
  let binds := match r.ordered function with
    | .ok binds => binds
    | .error _ => r.bindsFor function
  binds.map (·.bind.handler)

/-- Work the firing orders out anew. -/
def rebuild (r : Registry) : Registry :=
  { r with resolved := r.functions.map fun f => (f, r.firing f), stale := false }

/-- The registry with its firing orders up to date. -/
def refreshed (r : Registry) : Registry := if r.stale then r.rebuild else r

/-- The handlers of a function in firing order. -/
def handlersFor (r : Registry) (function : String) : List Handler × Registry :=
  let r := r.refreshed
  ((r.resolved.lookup function).getD [], r)

/-- Whether a function has handlers. -/
def hasHandlers (r : Registry) (function : String) : Bool × Registry :=
  let (handlers, r) := r.handlersFor function
  (!handlers.isEmpty, r)

/-- Work the firing orders out; the first cycle found is the fault. -/
def tryResolve (r : Registry) : Option RegistryFault × Registry :=
  let fault := r.functions.findSome? fun f =>
    match r.ordered f with
    | .ok _ => none
    | .error e => some e
  (fault, r.rebuild)

/-- The number of binds and whether the firing orders are out of date, as text. -/
def summary (r : Registry) : String :=
  "CommandBindRegistry \x7b binds: " ++ Decimal.natText r.binds.length ++ ", dirty: "
    ++ (if r.stale then "true" else "false") ++ " \x7d"

end Registry

/-- Owners as text. -/
def ownersText (owners : List String) : String :=
  "[" ++ ", ".intercalate (owners.map fun o => "OwnerId(" ++ Text.quoted o ++ ")") ++ "]"

/-- Function and constraints of a bind as text. -/
def Bind.summary (b : Bind) : String :=
  "CommandBind \x7b function: BoundKeyFunction(" ++ Text.quoted b.function ++ "), before: "
    ++ ownersText b.before ++ ", after: " ++ ownersText b.after ++ ", .. \x7d"

end KeyConsole.Dispatch
