import KeyConsole.Proofs.Dispatch.KeyTransitions
import KeyConsole.Proofs.Dispatch.Neighbours
import Mathlib.Data.Prod.Lex

/-!
# Proofs.Dispatch.TableHistory: a table is its live bindings, stably sorted

Bindings are registered and removed.  Those that are live, in the order in which they were registered, decide on
the table: it is what a stable sort by combination and priority makes of them.  Since the table is sorted, one
place is right for a new binding.
-/

namespace KeyConsole.Dispatch

open Keyboard (Combo)
open Ordered (sorted insertSorted)

/-! ### Calls -/

/-- What can be done to a table. -/
inductive TableCall where
  | register (b : Binding)
  | remove (id : Nat)

namespace TableCall

/-- The binding that a call takes out, and the table behind it. -/
def ask (t : Table) : TableCall → Option Binding × Table
  | register b => (none, t.insert b)
  | remove id => (t.get? id, t.remove id)

/-- The table after some calls. -/
def run (calls : List TableCall) (t : Table) : Table := calls.foldl (fun t c => (c.ask t).2) t

/-- The live bindings after one more call. -/
def follow (live : List Binding) : TableCall → List Binding
  | register b => live ++ [b]
  | remove id => live.filter (·.id ≠ id)

/-- The bindings that some calls have registered and not removed, in the order in which they were registered. -/
def live (calls : List TableCall) : List Binding := calls.foldl follow []

theorem run_concat (calls : List TableCall) (c : TableCall) (t : Table) :
    run (calls ++ [c]) t = (c.ask (run calls t)).2 := List.foldl_append

theorem live_concat (calls : List TableCall) (c : TableCall) : live (calls ++ [c]) = c.follow (live calls) :=
  List.foldl_append

end TableCall

/-! ### Rank -/

/-- What bindings are sorted by: the combination, then the priority. -/
def Binding.rank (b : Binding) : ℕ ×ₗ ℤ := toLex (b.combo.packed.toNat, b.priority)

theorem Binding.precedes_eq_rank (a b : Binding) : precedes a b = decide (b.rank ≤ a.rank) := by
  rw [Bool.eq_iff_iff, precedes_iff, decide_eq_true_iff, rank, rank, Prod.Lex.toLex_le_toLex, eq_comm]

theorem Binding.not_precedes {a b : Binding} : ¬precedes a b ↔ a.rank < b.rank := by
  rw [precedes_eq_rank, decide_eq_true_iff, not_le]

theorem Binding.sorted_precedes (bs : List Binding) :
    sorted precedes bs = bs.mergeSort fun a b => decide (b.rank ≤ a.rank) := by
  rw [Ordered.sorted_eq_mergeSort ranks_precedes, funext₂ precedes_eq_rank]

/-- A binding goes behind all that rank as high, and there is one such place. -/
theorem Table.insert_place {t : Table} (ht : t.Sorted) (b : Binding) :
    ∃ front behind, t.bindings = front ++ behind ∧ (t.insert b).bindings = front ++ b :: behind ∧
      (∀ c ∈ front, b.rank ≤ c.rank) ∧ ∀ c ∈ behind, c.rank < b.rank := by
  obtain ⟨bs⟩ := t
  simp only [Table.Sorted, Table.insert] at ht ⊢
  induction bs with
  | nil => exact ⟨[], [], rfl, rfl, by simp, by simp⟩
  | cons c bs ih =>
    obtain ⟨hc, hbs⟩ := List.pairwise_cons.mp ht
    rw [insertSorted]
    split
    · rename_i hcb
      obtain ⟨front, behind, rfl, hinsert, hfront, hbehind⟩ := ih hbs
      refine ⟨c :: front, behind, rfl, congrArg (c :: ·) hinsert, ?_, hbehind⟩
      rw [List.forall_mem_cons]
      rw [Binding.precedes_eq_rank, decide_eq_true_iff] at hcb
      exact ⟨hcb, hfront⟩
    · rename_i hcb
      refine ⟨[], c :: bs, rfl, rfl, by simp, ?_⟩
      rw [Binding.not_precedes] at hcb
      rw [List.forall_mem_cons]
      refine ⟨hcb, fun x hx => lt_of_le_of_lt ?_ hcb⟩
      have hcx := hc x hx
      rwa [Binding.precedes_eq_rank, decide_eq_true_iff] at hcx

/-! ### Histories -/

namespace TableCall

variable {calls : List TableCall}

theorem sorted_run (calls : List TableCall) : (run calls {}).Sorted := by
  induction calls using List.reverseRecOn with
  | nil => exact List.Pairwise.nil
  | append_singleton calls c ih =>
    rw [run_concat]
    cases c with
    | register b => exact Table.sorted_insert ih b
    | remove id => exact Table.sorted_remove ih id

/-- No two live bindings have ever had an id in common. -/
def Distinct (calls : List TableCall) : Prop := ∀ past, past <+: calls → ((live past).map (·.id)).Nodup

/-- The table is the live bindings, sorted by insertion. -/
theorem run_eq_sorted (hids : Distinct calls) :
    (run calls {}).bindings = sorted Binding.precedes (live calls) := by
  induction calls using List.reverseRecOn with
  | nil => rfl
  | append_singleton calls c ih =>
    have hpast : Distinct calls := fun past hpast => hids past (hpast.trans (List.prefix_append calls [c]))
    have hrun := ih hpast
    rw [run_concat, live_concat]
    cases c with
    | register b =>
      simp only [ask, follow, Table.insert]
      rw [hrun, Ordered.sorted_concat]
    | remove id =>
      have hdistinct : (run calls {}).Distinct := by
        unfold Table.Distinct
        rw [hrun, ((Ordered.perm_sorted Binding.precedes (live calls)).map _).nodup_iff]
        exact hpast calls (List.prefix_refl calls)
      simp only [ask, follow]
      rw [Table.remove_bindings hdistinct, hrun, Ordered.filter_sorted Binding.ranks_precedes]

theorem mem_run (hids : Distinct calls) {b : Binding} : b ∈ (run calls {}).bindings ↔ b ∈ live calls := by
  rw [run_eq_sorted hids]
  exact (Ordered.perm_sorted Binding.precedes (live calls)).mem_iff

theorem distinct_run (hids : Distinct calls) : (run calls {}).Distinct := by
  unfold Table.Distinct
  rw [run_eq_sorted hids, ((Ordered.perm_sorted Binding.precedes (live calls)).map _).nodup_iff]
  exact hids calls (List.prefix_refl calls)

/-- The binding that a call registers. -/
def registered? : TableCall → Option Binding
  | register b => some b
  | remove _ => none

theorem live_sublist (calls : List TableCall) : (live calls).Sublist (calls.filterMap registered?) := by
  induction calls using List.reverseRecOn with
  | nil => exact .slnil
  | append_singleton calls c ih =>
    rw [live_concat, List.filterMap_append]
    cases c with
    | register b => exact ih.append (List.Sublist.refl [b])
    | remove id => exact (List.filter_sublist.trans ih).trans (List.sublist_append_left _ _)

/-- It is enough that no id is registered twice. -/
theorem distinct_of_registered (h : ((calls.filterMap registered?).map (·.id)).Nodup) : Distinct calls := by
  intro past hpast
  exact h.sublist (((live_sublist past).trans (hpast.sublist.filterMap registered?)).map _)

/-- Whatever is registered and removed, the table is the live bindings in the order in which they were registered,
stably sorted by descending combination and priority.  A binding is registered behind all that rank as high as
itself and before all others, so any search finds its place.  A removal takes out the live binding with the id and
leaves the others in their order.  The combinations of at least two live bindings are the duplicates, each listed
once with all of its functions in table order. -/
theorem table_sorts_live_bindings (hids : Distinct calls) :
    (run calls {}).bindings = (live calls).mergeSort (fun a b => decide (b.rank ≤ a.rank)) ∧
      (∀ b, ∃ front behind, (run calls {}).bindings = front ++ behind ∧
        ((register b).ask (run calls {})).2.bindings = front ++ b :: behind ∧
        (∀ c ∈ front, b.rank ≤ c.rank) ∧ ∀ c ∈ behind, c.rank < b.rank) ∧
      (∀ id, (∀ b, ((remove id).ask (run calls {})).1 = some b ↔ b ∈ live calls ∧ b.id = id) ∧
        ((remove id).ask (run calls {})).2.bindings = (run calls {}).bindings.filter (·.id ≠ id)) ∧
      ((run calls {}).duplicates.map (·.1)).Nodup ∧
      ∀ combo functions, (combo, functions) ∈ (run calls {}).duplicates ↔
        2 ≤ ((live calls).filter (·.combo = combo)).length ∧
          functions = ((run calls {}).bindings.filter (·.combo = combo)).map (·.function) := by
  have hdistinct := distinct_run hids
  obtain ⟨hnodup, hgroups⟩ := Table.groups_spec (sorted_run calls)
  refine ⟨?_, Table.insert_place (sorted_run calls), fun id => ⟨fun b => ?_, Table.remove_bindings hdistinct⟩, ?_,
    fun combo functions => ?_⟩
  · rw [run_eq_sorted hids, Binding.sorted_precedes]
  · rw [← mem_run hids]
    refine ⟨Table.get?_mem, ?_⟩
    rintro ⟨hb, rfl⟩
    exact hdistinct.get?_eq_some hb
  · exact hnodup.sublist (List.filter_sublist.map _)
  · have hcount : ((run calls {}).bindings.filter (·.combo = combo)).length
        = ((live calls).filter (·.combo = combo)).length := by
      rw [run_eq_sorted hids]
      exact ((Ordered.perm_sorted Binding.precedes (live calls)).filter _).length_eq
    rw [Table.duplicates, List.mem_filter, hgroups, ← hcount, decide_eq_true_iff]
    refine ⟨?_, ?_⟩
    · rintro ⟨⟨-, rfl⟩, htwo⟩
      rw [Table.functionsOf, List.length_map] at htwo
      exact ⟨htwo, rfl⟩
    · rintro ⟨htwo, rfl⟩
      obtain ⟨b, hb⟩ := List.exists_mem_of_length_pos (Nat.lt_of_lt_of_le Nat.zero_lt_two htwo)
      obtain ⟨hmem, hcombo⟩ := List.mem_filter.mp hb
      refine ⟨⟨⟨b, hmem, of_decide_eq_true hcombo⟩, rfl⟩, ?_⟩
      rw [List.length_map]
      exact htwo

/-- A binding of the key C, alone or with a modifier. -/
def onC (id : Nat) (function : String) (modifier : Keyboard.Key) (priority : Int) : Binding :=
  { id, function, priority, kind := .state, canFocus := false, canRepeat := false, allowSubCombos := false
    combo := ⟨Combo.ofBytes Keyboard.Key.keyC.code 0 0 modifier.code⟩ }

/-- Four bindings come, and the first of them goes. -/
def crouching : List TableCall := [
  .register (onC 0 "Crouch" .unknown 0), .register (onC 1 "Duck" .unknown 0),
  .register (onC 2 "Slide" .control 0), .register (onC 3 "Kneel" .unknown 5), .remove 0]

theorem table_sorts_live_bindings_crouching :
    Distinct crouching ∧ (live crouching).map (·.function) = ["Duck", "Slide", "Kneel"] ∧
      (run crouching {}).bindings.map (·.function) = ["Slide", "Kneel", "Duck"] ∧
      (run crouching {}).bindings = (live crouching).mergeSort (fun a b => decide (b.rank ≤ a.rank)) ∧
      (⟨Combo.ofBytes Keyboard.Key.keyC.code 0 0 0⟩, ["Kneel", "Duck"]) ∈ (run crouching {}).duplicates := by
  have hids : Distinct crouching := distinct_of_registered (by decide)
  obtain ⟨hsorted, -, -, -, hduplicates⟩ := table_sorts_live_bindings hids
  refine ⟨hids, by decide, by decide +kernel, hsorted, (hduplicates _ _).mpr ⟨?_, ?_⟩⟩
  · decide +kernel
  · decide +kernel

end TableCall

end KeyConsole.Dispatch
