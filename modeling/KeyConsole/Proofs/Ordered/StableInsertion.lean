import KeyConsole.Ordered.Sorting
import Mathlib.Data.List.Induction
import Mathlib.Data.List.Nodup
import Mathlib.Data.String.Basic

/-!
# Proofs.Ordered.StableInsertion: what stable insertion gives

An order that ranks all elements makes insertion keep lists sorted, and then it does not matter whether a list
is first inserted into and then filtered, or the other way round.  Names in order depend only on which names
there are.
-/

namespace KeyConsole.Ordered

variable {α β : Type} {le : α → α → Bool} {x : α} {xs ys : List α}

/-- Of any two elements one may stand before the other, and this goes on from one to the next. -/
structure Ranks (le : α → α → Bool) : Prop where
  total : ∀ a b, le a b ∨ le b a
  trans : ∀ {a b c}, le a b → le b c → le a c

/-- Every element may stand before those behind it. -/
abbrev InOrder (le : α → α → Bool) (xs : List α) : Prop := xs.Pairwise fun a b => le a b

/-! ### Insertion -/

theorem inOrder_insertSorted (hle : Ranks le) (hys : InOrder le ys) : InOrder le (insertSorted le x ys) := by
  induction ys with
  | nil => exact List.pairwise_singleton _ _
  | cons y ys ih =>
    obtain ⟨hy, hys'⟩ := List.pairwise_cons.mp hys
    rw [insertSorted]
    split
    · rename_i hyx
      refine List.pairwise_cons.mpr ⟨fun z hz => ?_, ih hys'⟩
      rcases mem_insertSorted.mp hz with rfl | hz
      · exact hyx
      · exact hy z hz
    · rename_i hyx
      have hxy : le x y := (hle.total y x).resolve_left hyx
      refine List.pairwise_cons.mpr ⟨fun z hz => ?_, hys⟩
      rcases List.mem_cons.mp hz with rfl | hz
      · exact hxy
      · exact hle.trans hxy (hy z hz)

theorem insertSorted_eq_append (h : ∀ y ∈ ys, le y x) : insertSorted le x ys = ys ++ [x] := by
  induction ys with
  | nil => rfl
  | cons y ys ih =>
    obtain ⟨hy, hys⟩ := List.forall_mem_cons.mp h
    rw [insertSorted, if_pos hy, ih hys, List.cons_append]

theorem map_insertSorted {f : α → β} {le' : β → β → Bool} (hf : ∀ a b, le' (f a) (f b) = le a b) :
    (insertSorted le x ys).map f = insertSorted le' (f x) (ys.map f) := by
  induction ys with
  | nil => rfl
  | cons y ys ih =>
    rw [insertSorted, List.map_cons, insertSorted, hf]
    split
    · rw [List.map_cons, ih]
    · rfl

/-- Insertion and filtering do not get in each other's way. -/
theorem filter_insertSorted {p : α → Bool} (hle : Ranks le) (hys : InOrder le ys) :
    (insertSorted le x ys).filter p
      = if p x then insertSorted le x (ys.filter p) else ys.filter p := by
  induction ys with
  | nil => by_cases hx : p x <;> simp [insertSorted, hx]
  | cons y ys ih =>
    obtain ⟨hy, hys'⟩ := List.pairwise_cons.mp hys
    rw [insertSorted]
    by_cases hyx : le y x
    · rw [if_pos hyx, List.filter_cons, List.filter_cons, ih hys']
      by_cases hpy : p y <;> by_cases hpx : p x <;> simp [hpy, hpx, insertSorted, hyx]
    · rw [if_neg hyx, List.filter_cons]
      by_cases hpx : p x
      · rw [if_pos hpx, if_pos hpx]
        -- nothing behind `y` may stand before `x`, so `x` comes first in the filtered list too
        have hfront : ∀ z ∈ (y :: ys).filter p, ¬le z x := by
          intro z hz hzx
          rcases List.mem_cons.mp (List.mem_filter.mp hz).1 with rfl | hz
          · exact hyx hzx
          · exact hyx (hle.trans (hy z hz) hzx)
        cases hkept : (y :: ys).filter p with
        | nil => rfl
        | cons z zs =>
          rw [hkept] at hfront
          rw [insertSorted, if_neg (hfront z List.mem_cons_self)]
      · rw [if_neg hpx, if_neg hpx]

/-! ### Sorting -/

/-- Elements inserted one after the other. -/
def insertAll (le : α → α → Bool) (xs ys : List α) : List α :=
  xs.foldl (fun done x => insertSorted le x done) ys

theorem insertAll_append (le : α → α → Bool) (xs xs' ys : List α) :
    insertAll le (xs ++ xs') ys = insertAll le xs' (insertAll le xs ys) := List.foldl_append

theorem map_insertAll {f : α → β} {le' : β → β → Bool} (hf : ∀ a b, le' (f a) (f b) = le a b) (xs ys : List α) :
    (insertAll le xs ys).map f = insertAll le' (xs.map f) (ys.map f) := by
  unfold insertAll
  induction xs generalizing ys with
  | nil => rfl
  | cons x xs ih => rw [List.foldl_cons, ih, map_insertSorted hf, List.map_cons, List.foldl_cons]

theorem filter_insertAll (hle : Ranks le) (p : α → Bool) (xs : List α) (hys : InOrder le ys) :
    (insertAll le xs ys).filter p = insertAll le (xs.filter p) (ys.filter p) := by
  unfold insertAll
  induction xs generalizing ys with
  | nil => rfl
  | cons x xs ih =>
    rw [List.foldl_cons, ih (inOrder_insertSorted hle hys), filter_insertSorted hle hys, List.filter_cons]
    split <;> rfl

theorem inOrder_insertAll (hle : Ranks le) (xs : List α) (hys : InOrder le ys) :
    InOrder le (insertAll le xs ys) := by
  unfold insertAll
  induction xs generalizing ys with
  | nil => exact hys
  | cons x xs ih => exact ih (inOrder_insertSorted hle hys)

theorem inOrder_sorted (hle : Ranks le) (xs : List α) : InOrder le (sorted le xs) :=
  inOrder_insertAll hle xs .nil

/-- What is in order and may stand behind the rest is appended to it. -/
theorem insertAll_eq_append (h : InOrder le (ys ++ xs)) : insertAll le xs ys = ys ++ xs := by
  unfold insertAll
  induction xs generalizing ys with
  | nil => rw [List.foldl_nil, List.append_nil]
  | cons x xs ih =>
    have hx : ∀ y ∈ ys, le y x := fun y hy => (List.pairwise_append.mp h).2.2 y hy x List.mem_cons_self
    rw [List.foldl_cons, insertSorted_eq_append hx]
    rw [← List.singleton_append, ← List.append_assoc] at h
    rw [ih h, List.append_assoc, List.singleton_append]

theorem sorted_eq_self (h : InOrder le xs) : sorted le xs = xs := insertAll_eq_append h

theorem sorted_concat (le : α → α → Bool) (xs : List α) (x : α) :
    sorted le (xs ++ [x]) = insertSorted le x (sorted le xs) := List.foldl_append

theorem filter_sorted (hle : Ranks le) (p : α → Bool) (xs : List α) :
    (sorted le xs).filter p = sorted le (xs.filter p) := by
  induction xs using List.reverseRecOn with
  | nil => rfl
  | append_singleton xs x ih =>
    rw [sorted_concat, filter_insertSorted hle (inOrder_sorted hle xs), ih, List.filter_append]
    by_cases hx : p x
    · rw [if_pos hx, List.filter_cons_of_pos hx, List.filter_nil, sorted_concat]
    · rw [if_neg hx, List.filter_cons_of_neg hx, List.filter_nil, List.append_nil]

/-- Two elements are of one rank: either may stand before the other. -/
def level (le : α → α → Bool) (a b : α) : Bool := le a b && le b a

/-- Lists in order are equal if they have the same elements of every rank in the same order. -/
theorem eq_of_filter_level (hle : Ranks le) (hxs : InOrder le xs) (hys : InOrder le ys)
    (h : ∀ z, xs.filter (level le z) = ys.filter (level le z)) : xs = ys := by
  have hself : ∀ a, level le a a := fun a => by simpa [level] using hle.total a a
  induction xs generalizing ys with
  | nil =>
    cases ys with
    | nil => rfl
    | cons y ys => simpa [hself] using h y
  | cons x xs ih =>
    cases ys with
    | nil => simpa [hself] using h x
    | cons y ys =>
      have hx : x ∈ y :: ys := List.mem_of_mem_filter (p := level le x) (by rw [← h]; simp [hself])
      have hy : y ∈ x :: xs := List.mem_of_mem_filter (p := level le y) (by rw [h]; simp [hself])
      have hxy : level le x y := by
        rw [level, Bool.and_eq_true]
        refine ⟨?_, ?_⟩
        · rcases List.mem_cons.mp hy with rfl | hy
          · simpa using hle.total y y
          · exact (List.pairwise_cons.mp hxs).1 y hy
        · rcases List.mem_cons.mp hx with rfl | hx
          · simpa using hle.total x x
          · exact (List.pairwise_cons.mp hys).1 x hx
      obtain rfl : x = y := by
        have hhead := h x
        rw [List.filter_cons_of_pos (hself x), List.filter_cons_of_pos hxy] at hhead
        exact (List.cons.inj hhead).1
      rw [ih hxs.of_cons hys.of_cons fun z => ?_]
      have hz := h z
      rw [List.filter_cons, List.filter_cons] at hz
      split at hz
      · exact (List.cons.inj hz).2
      · exact hz

theorem inOrder_filter_level (hle : Ranks le) (z : α) (xs : List α) : InOrder le (xs.filter (level le z)) := by
  refine List.pairwise_of_forall_mem_list fun a ha b hb => ?_
  have ha := (List.mem_filter.mp ha).2
  have hb := (List.mem_filter.mp hb).2
  rw [level, Bool.and_eq_true] at ha hb
  exact hle.trans ha.2 hb.1

/-- It does not matter whether elements have been sorted before they are inserted. -/
theorem insertAll_sorted (hle : Ranks le) (xs : List α) (hys : InOrder le ys) :
    insertAll le (sorted le xs) ys = insertAll le xs ys := by
  refine eq_of_filter_level hle (inOrder_insertAll hle _ hys) (inOrder_insertAll hle _ hys) fun z => ?_
  rw [filter_insertAll hle _ _ hys, filter_insertAll hle _ _ hys, filter_sorted hle,
    sorted_eq_self (inOrder_filter_level hle z xs)]

theorem insertAll_flatMap_sorted (hle : Ranks le) (f : β → List α) (ks : List β) (hys : InOrder le ys) :
    insertAll le (ks.flatMap fun k => sorted le (f k)) ys = insertAll le (ks.flatMap f) ys := by
  induction ks generalizing ys with
  | nil => rfl
  | cons k ks ih =>
    rw [List.flatMap_cons, List.flatMap_cons, insertAll_append, insertAll_append, insertAll_sorted hle _ hys,
      ih (inOrder_insertAll hle _ hys)]

/-- Insertion one after the other sorts as any stable sort does. -/
theorem sorted_eq_mergeSort (hle : Ranks le) (xs : List α) : sorted le xs = xs.mergeSort le := by
  have htrans : ∀ a b c, le a b → le b c → le a c := fun _ _ _ => hle.trans
  have htotal : ∀ a b, le a b || le b a := fun a b => by simpa using hle.total a b
  refine eq_of_filter_level hle (inOrder_sorted hle xs) (List.pairwise_mergeSort htrans htotal xs) fun z => ?_
  have hinOrder := inOrder_filter_level hle z xs
  rw [filter_sorted hle, sorted_eq_self hinOrder]
  -- elements of one rank are in order, so a stable sort keeps them as they are
  have hkept := (List.sublist_mergeSort htrans htotal hinOrder List.filter_sublist).filter (level le z)
  rw [List.filter_filter] at hkept
  simp only [Bool.and_self] at hkept
  exact hkept.eq_of_length (((List.mergeSort_perm xs le).filter _).length_eq).symm

/-! ### Names -/

theorem mem_withoutRepeats [BEq α] [LawfulBEq α] {z : α} : z ∈ withoutRepeats xs ↔ z ∈ xs := by
  fun_induction withoutRepeats xs with
  | case1 => rfl
  | case2 x => rfl
  | case3 x y rest heq ih =>
    obtain rfl : x = y := eq_of_beq heq
    rw [ih, List.mem_cons (l := x :: rest)]
    refine ⟨.inr, ?_⟩
    rintro (rfl | h)
    · exact List.mem_cons_self
    · exact h
  | case4 x y rest _ ih => rw [List.mem_cons, ih, List.mem_cons (l := y :: rest)]

theorem textLe_iff {a b : String} : textLe a b ↔ a ≤ b := by
  rw [textLe, Bool.not_eq_true', decide_eq_false_iff_not, not_lt]

theorem ranks_textLe : Ranks textLe where
  total a b := by
    rw [textLe_iff, textLe_iff]
    exact le_total a b
  trans := by
    intro a b c hab hbc
    rw [textLe_iff] at hab hbc ⊢
    exact hab.trans hbc

/-- Names in order without repeats ascend. -/
theorem pairwise_withoutRepeats {names : List String} (h : InOrder textLe names) :
    (withoutRepeats names).Pairwise (· < ·) := by
  fun_induction withoutRepeats names with
  | case1 => exact .nil
  | case2 x => exact List.pairwise_singleton _ _
  | case3 x y rest heq ih => exact ih h.of_cons
  | case4 x y rest hne ih =>
    obtain ⟨hx, hrest⟩ := List.pairwise_cons.mp h
    refine List.pairwise_cons.mpr ⟨fun z hz => ?_, ih hrest⟩
    have hxy : x ≤ y := textLe_iff.mp (hx y List.mem_cons_self)
    have hlt : x < y := lt_of_le_of_ne hxy (by simpa using hne)
    rcases List.mem_cons.mp (mem_withoutRepeats.mp hz) with rfl | hz
    · exact hlt
    · have hyz : y ≤ z := textLe_iff.mp ((List.pairwise_cons.mp hrest).1 z hz)
      exact hlt.trans_le hyz

theorem mem_sortedNames {names : List String} {n : String} : n ∈ sortedNames names ↔ n ∈ names := by
  rw [sortedNames, mem_withoutRepeats, (perm_sorted textLe names).mem_iff]

theorem pairwise_sortedNames (names : List String) : (sortedNames names).Pairwise (· < ·) :=
  pairwise_withoutRepeats (inOrder_sorted ranks_textLe names)

theorem nodup_sortedNames (names : List String) : (sortedNames names).Nodup :=
  (pairwise_sortedNames names).imp ne_of_lt

/-- Which names there are decides on the list of names in order. -/
theorem sortedNames_congr {names names' : List String} (h : ∀ n, n ∈ names ↔ n ∈ names') :
    sortedNames names = sortedNames names' := by
  have hperm : (sortedNames names).Perm (sortedNames names') := by
    refine (List.perm_ext_iff_of_nodup (nodup_sortedNames _) (nodup_sortedNames _)).mpr fun n => ?_
    rw [mem_sortedNames, mem_sortedNames, h]
  exact hperm.eq_of_pairwise (fun a b _ _ hab hba => absurd hba hab.asymm) (pairwise_sortedNames _)
    (pairwise_sortedNames _)

end KeyConsole.Ordered
