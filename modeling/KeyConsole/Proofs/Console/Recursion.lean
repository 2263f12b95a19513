import KeyConsole.Proofs.Console.Ranges
import Mathlib.Logic.Function.Iterate

/-!
# Proofs.Console.Recursion: readings that call themselves

A reading that calls itself is given by what one call makes of the calls inside it.  If these are made only where
there is less left of the range, then the recursion ends: what is put in place of a call that is nested deeper than
there are bytes left does not matter, and the recursion is satisfied without a bound.
-/

namespace KeyConsole.Console.Reading

open Cursor (Passes)

variable {ι α β : Type} {c : Cursor} {x y : Reading α} {k l : α → Reading β} {P : List Char → α → Cursor → Prop}

/-- The reading moves only forward. -/
def Forward (x : Reading α) : Prop := ∀ c, Covers c x fun _ _ _ => True

/-- From a cursor on two readings do the same, and they move only forward. -/
structure AlikeFrom (c : Cursor) (x y : Reading α) : Prop where
  same : x.run.run c = y.run.run c
  forward : Covers c x fun _ _ _ => True

theorem Passing.forward (h : Passing x) : Forward x := fun c => (h c).mono fun _ _ _ _ _ => trivial

namespace AlikeFrom

theorem refl (h : Covers c x P) : AlikeFrom c x x := ⟨rfl, h.mono fun _ _ _ _ _ => trivial⟩

theorem refuse {cause : Cause} {span : Span} :
    AlikeFrom c (Reading.refuse cause span : Reading α) (Reading.refuse cause span) :=
  .refl (P := fun _ _ _ => True) .refuse

theorem pure {a : α} : AlikeFrom c (Pure.pure a) (Pure.pure a) := .refl (P := fun _ _ _ => True) (.pure trivial)

/-- One reading after the other, where the first of them covers something. -/
theorem follow (hx : AlikeFrom c x y) (hP : Covers c x P)
    (hk : ∀ text a e, c.Passes text e → P text a e → AlikeFrom e (k a) (l a)) : AlikeFrom c (x >>= k) (y >>= l) := by
  refine ⟨?_, Covers.bind hP fun text a e htext ha => (hk text a e htext ha).forward⟩
  cases ha : (x.run.run c).1 with
  | none =>
    have hb : (y.run.run c).1 = none := by rw [← hx.same, ha]
    rw [run_bind_none ha, run_bind_none hb, hx.same]
  | some a =>
    have hb : (y.run.run c).1 = some a := by rw [← hx.same, ha]
    obtain ⟨text, htext, hP⟩ := hP a ha
    rw [run_bind_some ha, run_bind_some hb, ← hx.same]
    exact (hk text a _ htext hP).same

theorem bind (hx : AlikeFrom c x y) (hk : ∀ text a e, c.Passes text e → AlikeFrom e (k a) (l a)) :
    AlikeFrom c (x >>= k) (y >>= l) :=
  hx.follow hx.forward fun text a e htext _ => hk text a e htext

/-- The same reading first. -/
theorem next (hx : Covers c x P) (hk : ∀ text a e, c.Passes text e → P text a e → AlikeFrom e (k a) (l a)) :
    AlikeFrom c (x >>= k) (x >>= l) :=
  (refl hx).follow hx hk

theorem look {f : Cursor → α} (hk : AlikeFrom c (k (f c)) (l (f c))) :
    AlikeFrom c (Reading.look f >>= k) (Reading.look f >>= l) := ⟨hk.same, hk.forward⟩

theorem get {k l : Cursor → Reading β} (hk : AlikeFrom c (k c) (l c)) :
    AlikeFrom c (MonadState.get >>= k) (MonadState.get >>= l) := ⟨hk.same, hk.forward⟩

/-- Going to a place first. -/
theorem set {e : Cursor} {text : List Char} {k l : PUnit → Reading β} (he : c.Passes text e)
    (hk : AlikeFrom e (k ⟨⟩) (l ⟨⟩)) : AlikeFrom c (MonadStateOf.set e >>= k) (MonadStateOf.set e >>= l) :=
  ⟨hk.same, Covers.set he hk.forward⟩

theorem ite {p : Prop} [Decidable p] {x' y' : Reading α} (hx : p → AlikeFrom c x y)
    (hy : ¬p → AlikeFrom c x' y') : AlikeFrom c (if p then x else x') (if p then y else y') := by
  split
  · rename_i h
    exact hx h
  · rename_i h
    exact hy h

/-- What is read inside a block up to its closing mark, where `z` refuses a block that is not closed. -/
theorem enclosed {mark : Char} {z : Reading α} (hx : AlikeFrom (c.pushCloser mark) x y)
    (hz : ∀ e, Covers e z fun _ _ _ => False) :
    AlikeFrom c
      (Reading.move (·.pushCloser mark) >>= fun _ => x >>= fun a =>
        Reading.step Cursor.eatCloser >>= fun closed => if closed then Pure.pure a else z)
      (Reading.move (·.pushCloser mark) >>= fun _ => y >>= fun a =>
        Reading.step Cursor.eatCloser >>= fun closed => if closed then Pure.pure a else z) := by
  refine ⟨?_, (Covers.enclosed hx.forward hz).mono fun _ _ _ _ _ => trivial⟩
  have hmoved : ∀ k : PUnit → Reading α,
      (Reading.move (·.pushCloser mark) >>= k).run.run c = (k ⟨⟩).run.run (c.pushCloser mark) := fun _ => rfl
  rw [hmoved, hmoved, run_bind, run_bind, hx.same]

end AlikeFrom

/-! ### Recursions -/

variable {F : (ι → Reading α) → ι → Reading α} {bottom : ι → Reading α} {result : ι → Reading α}

/-- One call of the recursion calls it again only inside of what is left.  So what it does is settled by what these
calls do there. -/
def Descending (F : (ι → Reading α) → ι → Reading α) : Prop :=
  ∀ (c : Cursor) (x y : ι → Reading α), (∀ e : Cursor, e.Inside c → ∀ j, AlikeFrom e (x j) (y j)) →
    ∀ i, AlikeFrom c (F x i) (F y i)

/-- The recursion ends, and `result` is what it gives. -/
structure Ends (F : (ι → Reading α) → ι → Reading α) (result : ι → Reading α) : Prop where
  /-- A call from `c` on makes further calls only where there are fewer bytes left than at `c`. -/
  descends : ∀ (c : Cursor) (x y : ι → Reading α), (∀ e : Cursor, e.left < c.left → ∀ j, AlikeFrom e (x j) (y j)) →
    ∀ i, AlikeFrom c (F x i) (F y i)
  /-- The recursion holds, with no bound on it. -/
  equation : ∀ i c, (result i).run.run c = (F result i).run.run c
  /-- No calls are nested deeper than there are bytes left: what stands in their place does not matter. -/
  bounded : ∀ n bottom i (c : Cursor), c.left < n → (F^[n] bottom i).run.run c = (result i).run.run c

/-- The recursion, with calls nested as deep as there are characters left. -/
def unrolled (F : (ι → Reading α) → ι → Reading α) (i : ι) : Reading α := do
  F^[(← look fun c => c.rest.length) + 1] (fun _ => failure) i

theorem run_unrolled (i : ι) (c : Cursor) :
    (unrolled F i).run.run c = (F^[c.rest.length + 1] (fun _ => failure) i).run.run c := by
  rw [unrolled, run_look]

namespace Descending

variable (hF : Descending F)

include hF

theorem alike_iterate (bottom bottom' : ι → Reading α) (n : Nat) (c : Cursor) (h : c.rest.length < n) (i : ι) :
    AlikeFrom c (F^[n] bottom i) (F^[n] bottom' i) := by
  induction n generalizing c i with
  | zero => exact absurd h (Nat.not_lt_zero _)
  | succ n ih =>
    rw [Function.iterate_succ_apply', Function.iterate_succ_apply']
    refine hF c _ _ (fun e he j => ih e ?_ j) i
    exact Nat.lt_of_lt_of_le he.shorter (Nat.le_of_lt_succ h)

theorem run_iterate {n : Nat} (h : c.rest.length < n) (i : ι) :
    (F^[n] bottom i).run.run c = (unrolled F i).run.run c := by
  obtain ⟨more, rfl⟩ := Nat.exists_eq_add_of_lt h
  have hsplit : c.rest.length + more + 1 = c.rest.length + 1 + more := by omega
  rw [hsplit, Function.iterate_add_apply]
  exact (hF.alike_iterate _ _ _ c (Nat.lt_succ_self _) i).same

theorem ends (hresult : ∀ i c, (result i).run.run c = (unrolled F i).run.run c) : Ends F result where
  descends c x y h i := hF c x y (fun e he => h e he.left_lt) i
  equation i c := by
    have hcalls : ∀ e : Cursor, e.Inside c → ∀ j, AlikeFrom e (F^[c.rest.length] (fun _ => failure) j) (result j) := by
      intro e he j
      refine ⟨?_, (hF.alike_iterate _ (fun _ => failure) _ e he.shorter j).forward⟩
      rw [hF.run_iterate he.shorter, hresult]
    rw [hresult, run_unrolled, Function.iterate_succ_apply']
    exact (hF c _ _ hcalls i).same
  bounded n bottom i c h := by
    rw [hresult]
    exact hF.run_iterate (Nat.lt_of_le_of_lt (Cursor.length_le_left c) h) i

end Descending

end KeyConsole.Console.Reading
