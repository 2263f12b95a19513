import KeyConsole.Dispatch.Binding
import KeyConsole.Ordered.Sorting

/-!
# Dispatch.Table: the bindings, larger combinations first

The bindings stand in descending order of combination and priority; those that are equal in both stand in
the order they came in.
-/

namespace KeyConsole.Dispatch

open Keyboard (Combo)

/-- The bindings in their order. -/
structure Table where
  bindings : List Binding := []
  deriving Inhabited, Repr

namespace Table

/-- Put a binding at its place. -/
def insert (t : Table) (b : Binding) : Table := ⟨Ordered.insertSorted Binding.precedes b t.bindings⟩

/-- The binding with an id. -/
def get? (t : Table) (id : Nat) : Option Binding := t.bindings.find? (·.id = id)

/-- Take out the binding with an id. -/
def remove (t : Table) (id : Nat) : Table := ⟨t.bindings.eraseP (·.id = id)⟩

/-- Set the state of the binding with an id. -/
def setState (t : Table) (id : Nat) (state : BindingState) : Table :=
  ⟨set t.bindings⟩
where
  set : List Binding → List Binding
    | [] => []
    | b :: rest => if b.id = id then { b with state } :: rest else b :: set rest

/-- The first binding of a function. -/
def find? (t : Table) (function : String) : Option Binding := t.bindings.find? (·.function = function)

/-- The bindings of a function. -/
def bindingsFor (t : Table) (function : String) : List Binding :=
  t.bindings.filter (·.function = function)

/-- Number of bindings. -/
def size (t : Table) : Nat := t.bindings.length

/-- A combination with the functions bound to it. -/
abbrev Shared := Combo × List String

/-- The bindings in groups of one combination each, where those of one combination are neighbours. -/
def groups : List Binding → List Shared
  | [] => []
  | b :: rest =>
    match groups rest with
    | [] => [(b.combo, [b.function])]
    | (combo, functions) :: others =>
      if b.combo = combo then (combo, b.function :: functions) :: others
      else (b.combo, [b.function]) :: (combo, functions) :: others

/-- The combinations bound more than once, with their functions. -/
def duplicates (t : Table) : List Shared := (groups t.bindings).filter (·.2.length > 1)

end Table

end KeyConsole.Dispatch
