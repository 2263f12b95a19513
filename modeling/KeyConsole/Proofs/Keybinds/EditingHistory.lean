import KeyConsole.Proofs.Keybinds.Operation

/-!
# Proofs.Keybinds.EditingHistory: what holds of bindings after any edits

Whatever is done to bindings after loading, a function that does not count as modified has the shipped bindings,
in the order of a stable sort.
-/

namespace KeyConsole.Keybinds

open Dispatch
open Ordered (sorted)
open Dispatcher (Edited)

variable {d d' : Dispatcher} {rs : List Registration} {function : String}

/-- Functions that are not modified have the bindings that are shipped. -/
structure Tracked (rs : List Registration) (d : Dispatcher) : Prop where
  sound : d.Sound
  inOrder : d.table.Sorted
  shipped : d.shipped = rs
  untouched : ∀ f, f ∉ d.modified → d.table.shapesFor f = sorted Binding.precedes (shapesOf f rs)

namespace Tracked

/-- States are of no matter. -/
theorem alike (hd : Tracked rs d) (hs : d'.Sound) (h : d.table.Alike d'.table) (hmodified : d'.modified = d.modified)
    (hshipped : d'.shipped = d.shipped) : Tracked rs d' := by
  refine ⟨hs, h.sorted hd.inOrder, hshipped.trans hd.shipped, fun f hf => ?_⟩
  rw [hmodified] at hf
  rw [h.shapesFor, hd.untouched f hf]

theorem keyed (hd : Tracked rs d) (h : Dispatcher.Keyed d d') : Tracked rs d' :=
  hd.alike (hd.sound.keyed h) h.alike (congrArg Dispatcher.modified h.rest :) (congrArg Dispatcher.shipped h.rest :)

theorem insertBinding (hd : Tracked rs d) (r : Registration) :
    Tracked rs ((d.insertBinding r true).elim d (·.2)) := by
  have hedited := Edited.insertBinding r true d
  refine ⟨hd.sound.edited hedited, Dispatcher.sorted_edited hedited hd.inOrder, ?_, fun f hf => ?_⟩
  · rw [Dispatcher.insertBinding_rest]
    exact hd.shipped
  · rw [Dispatcher.mem_modified_insertBinding, not_or, ne_eq, not_not] at hf
    rw [Dispatcher.shapesFor_insertBinding hd.inOrder, hf.2, ← hd.untouched f hf.1]
    rfl

theorem deleteBinding (hd : Tracked rs d) (id : Nat) :
    Tracked rs ((d.deleteBinding id true).elim d (·.2)) := by
  have hedited := Edited.deleteBinding id true d
  cases h : d.deleteBinding id true with
  | none => exact hd
  | some p =>
    obtain ⟨hget, heq⟩ := Dispatcher.deleteBinding_eq_some h
    rw [h, Option.elim_some] at hedited
    refine ⟨hd.sound.edited hedited, Dispatcher.sorted_edited hedited hd.inOrder, ?_, fun f hf => ?_⟩
    · rw [Option.elim_some, heq]
      exact hd.shipped
    · rw [Option.elim_some, heq] at hf ⊢
      have hf' : f ∉ d.modified ∧ f ≠ p.1.function := by
        rw [← not_or]
        exact fun hmem => hf (Dispatcher.mem_withName.mpr hmem)
      exact (Table.shapesFor_remove hd.sound.distinct (Table.get?_mem hget).1 hf'.2.symm).trans
        (hd.untouched f hf'.1)

theorem resetFunction (hd : Tracked rs d) (function : String) : Tracked rs (d.resetFunction function) := by
  have hedited := Edited.resetFunction d function
  refine ⟨hd.sound.edited hedited, Dispatcher.sorted_edited hedited hd.inOrder, ?_, fun f hf => ?_⟩
  · rw [Dispatcher.shipped_resetFunction hd.sound.distinct, hd.shipped]
  · rw [Dispatcher.modified_resetFunction hd.sound.distinct, List.mem_filter] at hf
    rw [Dispatcher.shapesFor_resetFunction hd.sound.distinct hd.inOrder, hd.shipped]
    split
    · rfl
    · rename_i hne
      refine hd.untouched f fun hmem => hf ⟨hmem, ?_⟩
      simpa using hne

theorem resetFunctions (hd : Tracked rs d) (functions : List String) :
    Tracked rs (d.resetFunctions functions) := by
  unfold Dispatcher.resetFunctions
  induction functions generalizing d with
  | nil => exact hd
  | cons f fs ih => exact ih (hd.resetFunction f)

end Tracked

/-- The operation loads a keybind file. -/
def Operation.loads : Operation → Bool
  | .applyFile .. | .load _ => true
  | _ => false

theorem tracked_apply (hd : Tracked rs d) {op : Operation} (hop : ¬op.loads) : Tracked rs (op.apply d) := by
  have hsound := sound_apply hd.sound op
  cases op with
  | keyDown e => exact hd.keyed (Dispatcher.keyed_keyDown e d)
  | keyUp e => exact hd.keyed (Dispatcher.keyed_keyUp e d)
  | activate name =>
    simp only [Operation.apply] at hsound ⊢
    cases h : d.setActiveContext name with
    | error fault => exact hd
    | ok d' =>
      rw [h] at hsound
      obtain ⟨-, ⟨-, rfl⟩ | ⟨-, rfl⟩ | ⟨old, -, rfl⟩⟩ := Dispatcher.setActiveContext_eq_ok h
      · exact hd
      · exact hd.alike hsound (.refl _) rfl rfl
      · have hmoved := Dispatcher.moved_raiseAll
          (Dispatcher.dropped old name (Dispatcher.activated name d)) (Dispatcher.activated name d)
        have hactivated : Tracked rs (Dispatcher.activated name d) :=
          hd.alike (hd.sound.activated (Dispatcher.setActiveContext_eq_ok h).1) (.refl _) rfl rfl
        exact hactivated.keyed hmoved.keyed
  | register r => exact hd.insertBinding r
  | remove id => exact hd.deleteBinding id
  | reset function => exact hd.resetFunction function
  | resetAll order =>
    simp only [Operation.apply]
    split
    · exact hd.resetFunctions order
    · exact hd
  | applyFile file byUser => exact absurd rfl hop
  | load user => exact absurd rfl hop
  | _ => exact hd.alike hsound (.refl _) rfl rfl

theorem tracked_run (hd : Tracked rs d) {ops : List Operation} (hops : ∀ op ∈ ops, ¬op.loads) :
    Tracked rs (Operation.run ops d) :=
  Operation.run_induction (P := Tracked rs) (Q := fun op => ¬op.loads) (fun _ _ hop hd => tracked_apply hd hop)
    hops hd

theorem tracked_loadKeybinds (hs : d.Sound) (hd : Unbound d) (user : Option KeybindFile) :
    Tracked (registrations d.known shippedFile.entries) (loadKeybinds user d) := by
  have hstart : d.table.Sorted := by
    unfold Table.Sorted
    rw [hd.bindings]
    exact List.Pairwise.nil
  have hedited := edited_loadKeybinds user d
  refine ⟨hs.edited hedited, Dispatcher.sorted_edited hedited hstart, ?_, fun f hf => ?_⟩
  · rw [shipped_loadKeybinds, hd.shipped, List.nil_append]
  · rw [shapesFor_loadKeybinds hd, if_neg]
    simpa [Dispatcher.isModified] using hf

end KeyConsole.Keybinds
