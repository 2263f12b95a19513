import KeyConsole.Proofs.Dispatch.ContextTree
import KeyConsole.Proofs.Dispatch.Delivery
import KeyConsole.Proofs.Keyboard.Packing
import Mathlib.Logic.Relation

/-!
# Proofs.Dispatch.Editing: bindings that come and go

Registrations, removals, resets and keybind files edit the table one binding at a time.  `Edited` is what a row
of such edits can do.  A sound dispatcher has ids that tell bindings apart, packed combinations and a sound tree
of contexts; edits keep it sound, and so do changes of state.
-/

namespace KeyConsole.Dispatch

open Keyboard (Key Combo Event Flags)

namespace Dispatcher

variable {d d' : Dispatcher} {id : Nat} {r : Registration} {byUser : Bool} {b : Binding}

/-- The dispatcher with a binding that is not yet in the table. -/
def withBinding (d : Dispatcher) (b : Binding) (modified : List String) : Dispatcher :=
  { d with nextId := d.nextId + 1, modified, table := d.table.insert b }.note (.added b)

/-- The dispatcher without a binding. -/
def withoutBinding (d : Dispatcher) (b : Binding) (modified : List String) : Dispatcher :=
  { d with table := d.table.remove b.id, modified }.note (.removed b)

theorem ofRegistration?_eq_some (h : Binding.ofRegistration? id r = some b) :
    b.id = id ∧ b.state = .up ∧ b.function = r.function ∧ b.combo.Packed := by
  obtain ⟨combo, hcombo, rfl⟩ := Option.map_eq_some_iff.mp h
  exact ⟨rfl, rfl, rfl, _, _, _, _, hcombo⟩

/-- A registration puts in a binding that is up and has the next id. -/
theorem insertBinding_eq_some (h : insertBinding r byUser d = some (id, d')) :
    id = d.nextId ∧ ∃ b, Binding.ofRegistration? d.nextId r = some b ∧
      d' = d.withBinding b (if byUser then withName d.modified r.function else d.modified) := by
  obtain ⟨b, hb, heq⟩ := Option.map_eq_some_iff.mp h
  obtain ⟨rfl, rfl⟩ := Prod.mk.inj heq
  exact ⟨(ofRegistration?_eq_some hb).1, b, hb, rfl⟩

theorem deleteBinding_eq_some (h : deleteBinding id byUser d = some (b, d')) :
    d.table.get? id = some b ∧
      d' = d.withoutBinding b (if byUser then withName d.modified b.function else d.modified) := by
  obtain ⟨c, hc, heq⟩ := Option.map_eq_some_iff.mp h
  obtain ⟨rfl, rfl⟩ := Prod.mk.inj heq
  obtain ⟨-, rfl⟩ := Table.get?_mem hc
  exact ⟨hc, rfl⟩

/-! ### Edits -/

/-- One binding comes or goes, or it is put down what the user has changed and what is shipped. -/
inductive Edit : Dispatcher → Dispatcher → Prop
  | insert {d : Dispatcher} {b : Binding} (r : Registration) (modified : List String)
      (h : Binding.ofRegistration? d.nextId r = some b) : Edit d (d.withBinding b modified)
  | delete {d : Dispatcher} {b : Binding} (modified : List String) (h : b ∈ d.table.bindings) :
      Edit d (d.withoutBinding b modified)
  | putDown {d : Dispatcher} (modified : List String) (shipped : List Registration) :
      Edit d { d with modified, shipped }

/-- A row of edits. -/
abbrev Edited : Dispatcher → Dispatcher → Prop := Relation.ReflTransGen Edit

namespace Edited

theorem insertBinding (r : Registration) (byUser : Bool) (d : Dispatcher) :
    Edited d ((d.insertBinding r byUser).elim d (·.2)) := by
  cases h : d.insertBinding r byUser with
  | none => exact .refl
  | some p =>
    obtain ⟨-, b, hb, heq⟩ := insertBinding_eq_some h
    rw [Option.elim_some, heq]
    exact .single (.insert r _ hb)

theorem deleteBinding (id : Nat) (byUser : Bool) (d : Dispatcher) :
    Edited d ((d.deleteBinding id byUser).elim d (·.2)) := by
  cases h : d.deleteBinding id byUser with
  | none => exact .refl
  | some p =>
    obtain ⟨hb, heq⟩ := deleteBinding_eq_some h
    rw [Option.elim_some, heq]
    exact .single (.delete _ (Table.get?_mem hb).1)

theorem putDown (d : Dispatcher) (modified : List String) (shipped : List Registration) :
    Edited d { d with modified, shipped } := .single (.putDown modified shipped)

theorem insertAll (rs : List Registration) (d : Dispatcher) :
    Edited d (rs.foldl (fun d r => (d.insertBinding r byUser).elim d (·.2)) d) := by
  induction rs generalizing d with
  | nil => exact .refl
  | cons r rs ih => exact (insertBinding r byUser d).trans (ih _)

theorem deleteAll (ids : List Nat) (d : Dispatcher) :
    Edited d (ids.foldl (fun d id => (d.deleteBinding id byUser).elim d (·.2)) d) := by
  induction ids generalizing d with
  | nil => exact .refl
  | cons id ids ih => exact (deleteBinding id byUser d).trans (ih _)

theorem resetFunction (d : Dispatcher) (function : String) : Edited d (d.resetFunction function) :=
  calc
    Edited d (((d.table.bindingsFor function).map (·.id)).foldl
        (fun d id => (d.deleteBinding id false).elim d (·.2)) d) := deleteAll _ d
    Edited _ _ := putDown _ _ _
    Edited _ (d.resetFunction function) := insertAll _ _

theorem resetFunctions (functions : List String) (d : Dispatcher) :
    Edited d (Dispatcher.resetFunctions functions d) := by
  induction functions generalizing d with
  | nil => exact .refl
  | cons f fs ih => exact (resetFunction d f).trans (ih _)

end Edited

/-- An edit brings in a binding with the next id only. -/
theorem Edit.old (h : Edit d d') :
    d.nextId ≤ d'.nextId ∧ ∀ c ∈ d'.table.bindings, c.id < d.nextId → c ∈ d.table.bindings := by
  cases h with
  | @insert b r modified h =>
    refine ⟨Nat.le_succ d.nextId, fun c hc hold => ?_⟩
    rcases (Table.mem_insert c).mp hc with rfl | hc
    · rw [(ofRegistration?_eq_some h).1] at hold
      exact absurd hold (Nat.lt_irrefl _)
    · exact hc
  | delete modified h => exact ⟨Nat.le_refl _, fun c hc _ => List.mem_of_mem_eraseP hc⟩
  | putDown modified shipped => exact ⟨Nat.le_refl _, fun c hc _ => hc⟩

theorem Edited.nextId_le (h : Edited d d') : d.nextId ≤ d'.nextId := by
  induction h with
  | refl => exact Nat.le_refl _
  | tail _ h ih => exact Nat.le_trans ih h.old.1

/-- What is in the table after some edits and has an id of before was there before, in the same state. -/
theorem Edited.old {c : Binding} (h : Edited d d') (hc : c ∈ d'.table.bindings) (hold : c.id < d.nextId) :
    c ∈ d.table.bindings := by
  induction h using Relation.ReflTransGen.head_induction_on with
  | refl => exact hc
  | head h _ ih =>
    obtain ⟨hnext, hmem⟩ := h.old
    exact hmem c (ih (Nat.lt_of_lt_of_le hold hnext)) hold

/-- An id that is gone does not come back. -/
theorem Edited.gone (h : Edited d d') (hold : id < d.nextId) (hnone : d.table.get? id = none) :
    d'.table.get? id = none := by
  rw [Table.get?_eq_none_iff] at hnone ⊢
  rintro c hc rfl
  exact hnone c (h.old hc hold) rfl

/-! ### Sound dispatchers -/

/-- Ids tell the bindings apart and are used once, combinations are packed, and the tree is sound. -/
structure Sound (d : Dispatcher) : Prop where
  distinct : d.table.Distinct
  fresh : ∀ b ∈ d.table.bindings, b.id < d.nextId
  packed : ∀ b ∈ d.table.bindings, b.combo.Packed
  tree : d.contexts.Sound

namespace Sound

theorem keyed (hs : d.Sound) (h : Keyed d d') : d'.Sound where
  distinct := h.alike.distinct hs.distinct
  fresh := by
    rw [h.nextId]
    refine h.alike.forall_mem (fun b c heq hc => ?_) hs.fresh
    have hid : c.id = b.id := (congrArg Binding.id heq :)
    rwa [hid] at hc
  packed := by
    refine h.alike.forall_mem (fun b c heq hc => ?_) hs.packed
    have hcombo : c.combo = b.combo := (congrArg Binding.combo heq :)
    rwa [hcombo] at hc
  tree := h.contexts ▸ hs.tree

theorem moved (hs : d.Sound) (h : Moved d d') : d'.Sound := hs.keyed h.keyed

theorem edit (hs : d.Sound) (h : Edit d d') : d'.Sound := by
  cases h with
  | @insert b r modified h =>
    obtain ⟨hid, -, -, hpacked⟩ := ofRegistration?_eq_some h
    refine ⟨Table.distinct_insert hs.distinct ?_, ?_, ?_, hs.tree⟩
    · intro c hc
      have := hs.fresh c hc
      omega
    · intro c hc
      change c.id < d.nextId + 1
      rcases (Table.mem_insert c).mp hc with rfl | hc
      · omega
      · have := hs.fresh c hc
        omega
    · intro c hc
      rcases (Table.mem_insert c).mp hc with rfl | hc
      · exact hpacked
      · exact hs.packed c hc
  | @delete b modified h =>
    have hsub : ∀ c ∈ (d.table.remove b.id).bindings, c ∈ d.table.bindings := fun c hc =>
      List.mem_of_mem_eraseP hc
    exact ⟨Table.distinct_remove hs.distinct, fun c hc => hs.fresh c (hsub c hc),
      fun c hc => hs.packed c (hsub c hc), hs.tree⟩
  | putDown modified shipped => exact ⟨hs.distinct, hs.fresh, hs.packed, hs.tree⟩

theorem edited (hs : d.Sound) (h : Edited d d') : d'.Sound := by
  induction h with
  | refl => exact hs
  | tail _ h ih => exact ih.edit h

end Sound

end Dispatcher

end KeyConsole.Dispatch
