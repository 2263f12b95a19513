/-!
# Ordered.Sorting: stable insertion

`insertSorted` puts an element behind all that may stand before it, so `sorted` is a stable sort: what
compares equal keeps its order.
-/

namespace KeyConsole.Ordered

variable {α : Type}

/-- Insert behind every element that may stand before `x`, where `le y x` says that `y` may. -/
def insertSorted (le : α → α → Bool) (x : α) : List α → List α
  | [] => [x]
  | y :: ys => if le y x then y :: insertSorted le x ys else x :: y :: ys

/-- The stable sort: elements are inserted one after the other. -/
def sorted (le : α → α → Bool) (xs : List α) : List α :=
  xs.foldl (fun done x => insertSorted le x done) []

/-- One element for each run of equal neighbours. -/
def withoutRepeats [BEq α] : List α → List α
  | [] => []
  | [x] => [x]
  | x :: y :: rest => if x == y then withoutRepeats (y :: rest) else x :: withoutRepeats (y :: rest)

theorem perm_insertSorted (le : α → α → Bool) (x : α) (ys : List α) :
    (insertSorted le x ys).Perm (x :: ys) := by
  induction ys with
  | nil => exact .refl _
  | cons y ys ih =>
    simp only [insertSorted]
    split
    · exact (ih.cons y).trans (.swap x y ys)
    · exact .refl _

theorem mem_insertSorted {le : α → α → Bool} {x z : α} {ys : List α} :
    z ∈ insertSorted le x ys ↔ z = x ∨ z ∈ ys := by
  simpa using (perm_insertSorted le x ys).mem_iff

theorem perm_sorted (le : α → α → Bool) (xs : List α) : (sorted le xs).Perm xs := by
  suffices ∀ done, (xs.foldl (fun done x => insertSorted le x done) done).Perm (done ++ xs) by
    simpa [sorted] using this []
  induction xs with
  | nil => simp
  | cons x xs ih =>
    intro done
    refine (ih _).trans (((perm_insertSorted le x done).append_right xs).trans ?_)
    exact List.perm_middle.symm

/-- Texts by code points. -/
def textLe (a b : String) : Bool := !decide (b < a)

/-- The texts in order, each once. -/
def sortedNames (names : List String) : List String := withoutRepeats (sorted textLe names)

end KeyConsole.Ordered
