import KeyConsole.Ordered.Sorting

/-!
# Dispatch.FiringOrder: ordering under constraints

Nodes `0, 1, …` are put into an order in which every edge leads forward.  A node is ready when no edge leads
to it from a node that is still to be placed.  The smallest ready node is placed first; then its edges are
taken away, and so on.  On a cycle some nodes are stuck: those that lie on one or behind one.
-/

namespace KeyConsole.Dispatch.FiringOrder

/-- How far an order has come. -/
structure Progress where
  /-- For each node the number of edges that lead to it from nodes still to be placed. -/
  incoming : List Nat
  /-- The ready nodes, the smallest first. -/
  ready : List Nat
  deriving DecidableEq, Repr

namespace Progress

/-- The number of edges that lead to a node. -/
def edgesTo (p : Progress) (node : Nat) : Nat := p.incoming.getD node 0

/-- Take away an edge to a node, which is ready if this was the last. -/
def release (p : Progress) (node : Nat) : Progress where
  incoming := p.incoming.set node (p.edgesTo node - 1)
  ready := if p.edgesTo node - 1 = 0 then Ordered.insertSorted (· ≤ ·) node p.ready else p.ready

end Progress

/-- Nothing is placed; `targets` are the nodes that each node's edges lead to. -/
def start (targets : List (List Nat)) : Progress :=
  let nodes := List.range targets.length
  let edgesTo := fun node => targets.flatten.count node
  { incoming := nodes.map edgesTo, ready := nodes.filter (edgesTo · = 0) }

/-- The nodes placed from here on, in at most as many steps as the second argument says, and how far this
comes. -/
def place (targets : List (List Nat)) : Nat → Progress → List Nat × Progress
  | 0, p => ([], p)
  | steps + 1, p =>
    match p.ready with
    | [] => ([], p)
    | node :: ready =>
      let (placed, p) := place targets steps ((targets.getD node []).foldl Progress.release { p with ready })
      (node :: placed, p)

/-- The order of all nodes, or the nodes that are stuck. -/
def resolve (targets : List (List Nat)) : Except (List Nat) (List Nat) :=
  let (placed, p) := place targets targets.length (start targets)
  if placed.length = targets.length then .ok placed
  else .error ((List.range targets.length).filter (p.edgesTo · > 0))

end KeyConsole.Dispatch.FiringOrder
