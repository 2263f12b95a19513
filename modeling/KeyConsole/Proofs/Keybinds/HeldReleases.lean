import KeyConsole.Proofs.Dispatch.Releases
import KeyConsole.Proofs.Keybinds.Alternation

/-!
# Proofs.Keybinds.HeldReleases: what becomes of a binding that is down

A binding that is down and goes up does so by one transition, and this is passed on.  One that is taken out, by
its removal or by a reset of its function, is gone without any.
-/

namespace KeyConsole.Keybinds

open Dispatch
open Dispatcher (Edited Tells upBefore)

variable {d : Dispatcher} {b b' : Binding} {op : Operation}

namespace Operation

/-- The operation takes a binding out: it removes it, or resets its function. -/
def takesOut (b : Binding) (d : Dispatcher) : Operation → Bool
  | remove id => b.id = id
  | reset function => b.function = function
  | resetAll order => order.isPerm d.modified && order.contains b.function
  | _ => false

end Operation

/-! ### What is told -/

theorem tells_apply (hs : d.Sound) (hsorted : d.table.Sorted) (op : Operation) :
    Tells upBefore d (op.apply d) := by
  have hnone : ∀ id, upBefore id [] := fun _ => ⟨[], [], rfl, by simp, by simp⟩
  rcases apply_cases d op with hedited | ⟨e, rfl⟩ | ⟨e, rfl⟩ | ⟨name, d', rfl, h, happly⟩ | ⟨-, -, hjournal⟩
  · obtain ⟨ns, hns, hnil⟩ := edited_journal hedited
    exact ⟨ns, hns, fun id => hnil id ▸ hnone id⟩
  · exact Dispatcher.tells_keyDown hs hsorted e
  · exact (Dispatcher.releases_alongReleases.keyUp e d).upBefore
  · exact happly ▸ (Dispatcher.releases_setActiveContext h).upBefore
  · exact .quiet hjournal hnone

/-- What was down and is up has turned once. -/
theorem changes_told_of_release (hs : d.Sound) (hsorted : d.table.Sorted) (hb : b ∈ d.table.bindings)
    (hdown : b.isDown) (hb' : b' ∈ (op.apply d).table.bindings) (hid : b'.id = b.id) (hup : ¬b'.isDown) :
    changes b.id (op.told d) = [(.down, .up)] ∧ ∃ before rest,
      op.told d = before ++ .transition b.id .down .up :: rest ∧ PassedOn b.release rest := by
  have hstate : b.state = .down := Binding.isDown_iff.mp hdown
  rcases delivers_or_edited hs op with ⟨ns, hdelivered⟩ | hedited
  · have htold := told_of_journal hdelivered.journal
    obtain ⟨ns', hns', hrow⟩ := tells_apply hs hsorted op
    obtain rfl : ns = ns' := List.append_cancel_left (hdelivered.journal.symm.trans hns')
    have hget := hs.distinct.get?_eq_some hb
    obtain ⟨c, hc, -, hway⟩ := hdelivered.way b.id b hget
    obtain rfl : b' = c := by
      have hget' := (sound_apply hs op).distinct.get?_eq_some hb'
      exact Option.some.inj ((hid ▸ hget').symm.trans hc)
    have hstate' : b'.state = .up := by
      cases h : b'.state with
      | up => rfl
      | down => exact absurd (Binding.isDown_iff.mpr h) hup
    obtain ⟨xs, ys, hsplit, hups, hlast⟩ := hrow b.id
    rw [hstate, hstate', hsplit] at hway
    have honce : changes b.id ns = [(.down, .up)] := hsplit.trans (hway.released_once hups hlast)
    obtain ⟨before, rest, hrest⟩ := exists_of_mem_changes (honce ▸ List.mem_singleton_self _)
    obtain ⟨change, ⟨b₀, hb₀, rfl⟩, hpassed⟩ := hdelivered.passed before b.id .down rest hrest
    obtain rfl : b = b₀ := Option.some.inj (hget.symm.trans hb₀)
    rw [htold]
    exact ⟨honce, before, rest, hrest, hpassed⟩
  · -- an edit leaves a binding in its state
    have hold := hedited.old hb' (hid ▸ hs.fresh b hb)
    rw [hs.distinct.eq_of_id hold hb hid] at hup
    exact absurd hdown hup

/-! ### What is taken out -/

theorem changes_told_of_takesOut (h : op.takesOut b d) : changes b.id (op.told d) = [] := by
  have hedited : Edited d (op.apply d) := by
    cases op with
    | remove id => exact .deleteBinding id true d
    | reset function => exact .resetFunction d function
    | resetAll order =>
      simp only [Operation.apply]
      split
      · exact .resetFunctions order d
      · exact .refl
    | _ => cases h
  obtain ⟨ns, hns, hnil⟩ := edited_journal hedited
  rw [told_of_journal hns]
  exact hnil b.id

/-- A binding is gone after an operation just if this takes it out. -/
theorem get?_apply_eq_none_iff (hs : d.Sound) (hb : b ∈ d.table.bindings) :
    (op.apply d).table.get? b.id = none ↔ op.takesOut b d := by
  have hget := hs.distinct.get?_eq_some hb
  have hstays : ∀ {d' : Dispatcher}, d.table.bindings ⊆ d'.table.bindings → d'.table.get? b.id ≠ none := by
    intro d' hsub hnone
    exact Table.get?_eq_none_iff.mp hnone b (hsub hb) rfl
  have halike : ∀ {d' : Dispatcher}, d.table.Alike d'.table → d'.table.get? b.id ≠ none := by
    intro d' halike hnone
    obtain ⟨c, hc, hrest⟩ := halike.symm.exists_mem hb
    exact Table.get?_eq_none_iff.mp hnone c hc (congrArg Binding.id hrest :)
  cases op with
  | keyDown e => exact iff_of_false (halike (Dispatcher.keyed_keyDown e d).alike) Bool.false_ne_true
  | keyUp e => exact iff_of_false (halike (Dispatcher.keyed_keyUp e d).alike) Bool.false_ne_true
  | activate name =>
    simp only [Operation.apply, Operation.takesOut]
    cases h : d.setActiveContext name with
    | error fault => simp [Except.toOption, hget]
    | ok d' => exact iff_of_false (halike (Dispatcher.alike_setActiveContext h)) Bool.false_ne_true
  | register r => exact iff_of_false (hstays (Dispatcher.subset_insertBinding r true d)) Bool.false_ne_true
  | remove id =>
    simp only [Operation.apply, Operation.takesOut, decide_eq_true_eq]
    cases h : d.removeBinding id with
    | none =>
      rw [Dispatcher.removeBinding, Dispatcher.deleteBinding, Option.map_eq_none_iff] at h
      simp [hget, Table.get?_eq_none_iff.mp h b hb]
    | some p =>
      obtain ⟨hp, heq⟩ := Dispatcher.deleteBinding_eq_some h
      obtain ⟨-, hpid⟩ := Table.get?_mem hp
      have htable : p.2.table.bindings = d.table.bindings.filter (·.id ≠ id) := by
        rw [heq, ← Table.remove_bindings hs.distinct, ← hpid]
        rfl
      rw [Option.elim_some, Table.get?_eq_none_iff, htable]
      refine ⟨fun hnone => ?_, ?_⟩
      · by_contra hne
        exact hnone b (List.mem_filter.mpr ⟨hb, by simpa using hne⟩) rfl
      · rintro rfl c hc
        simpa using (List.mem_filter.mp hc).2
  | reset function =>
    simp only [Operation.apply, Operation.takesOut]
    rw [Dispatcher.get?_resetFunction hs hb]
    simp
  | resetAll order =>
    simp only [Operation.apply, Operation.takesOut]
    split
    · rename_i hperm
      rw [Dispatcher.get?_resetFunctions hs hb]
      simp [hperm]
    · rename_i hperm
      simp [hget, hperm]
  | applyFile file byUser => exact iff_of_false (hstays (subset_loadFile file byUser d)) Bool.false_ne_true
  | load user =>
    have hkept := hstays (subset_loadKeybinds user d)
    simp only [Operation.apply]
    exact iff_of_false hkept Bool.false_ne_true
  | _ => exact iff_of_false (halike (.refl _)) Bool.false_ne_true

/-! ### Runs -/

/-- If a binding that is down is up after an operation, it has turned just once, and this has been passed on.  It
is gone after the operation just if this removes it or resets its function, and then it has not turned at all. -/
theorem held_bindings_are_released_or_taken_out {start : Dispatcher} (hstart : start = {} ∨ start = engineDispatcher)
    (ops : List Operation) (op : Operation) {b : Binding} (hb : b ∈ (Operation.run ops start).table.bindings)
    (hdown : b.isDown) :
    (∀ b' ∈ (op.apply (Operation.run ops start)).table.bindings, b'.id = b.id → ¬b'.isDown →
      changes b.id (op.told (Operation.run ops start)) = [(.down, .up)] ∧
      ∃ before rest, op.told (Operation.run ops start) = before ++ .transition b.id .down .up :: rest ∧
        PassedOn ⟨b.function, .up, b.canFocus⟩ rest) ∧
    ((op.apply (Operation.run ops start)).table.get? b.id = none ↔ op.takesOut b (Operation.run ops start)) ∧
    (op.takesOut b (Operation.run ops start) → changes b.id (op.told (Operation.run ops start)) = []) := by
  have hs := sound_run (sound_start hstart) ops
  have hsorted := sorted_run (sorted_start hstart) ops
  refine ⟨fun b' hb' hid hup => ?_, get?_apply_eq_none_iff hs hb, changes_told_of_takesOut⟩
  exact changes_told_of_release hs hsorted hb hdown hb' hid hup

/-- A run that holds the space bar. -/
def jumpHeld : List Operation := [
  .createContext "play" none, .addFunction "play" "Jump", .activate "play",
  .register { function := "Jump", base := .space }, .keyDown { key := .space }]

/-- The binding of the run, down. -/
def heldJump : Binding where
  id := 0
  function := "Jump"
  kind := .state
  combo := ⟨73⟩
  canFocus := false
  canRepeat := false
  allowSubCombos := false
  priority := 0
  state := .down

theorem held_bindings_are_released_or_taken_out_heldJump :
    heldJump ∈ (Operation.run jumpHeld {}).table.bindings ∧
      heldJump.atRest ∈ ((Operation.keyUp { key := .space }).apply (Operation.run jumpHeld {})).table.bindings ∧
      changes 0 ((Operation.keyUp { key := .space }).told (Operation.run jumpHeld {})) = [(.down, .up)] ∧
      ∃ before rest, (Operation.keyUp { key := .space }).told (Operation.run jumpHeld {})
          = before ++ .transition 0 .down .up :: rest ∧ PassedOn ⟨"Jump", .up, false⟩ rest := by
  have hdown : heldJump ∈ (Operation.run jumpHeld {}).table.bindings := by decide +kernel
  have hup : heldJump.atRest ∈
      ((Operation.keyUp { key := .space }).apply (Operation.run jumpHeld {})).table.bindings := by decide +kernel
  exact ⟨hdown, hup, (held_bindings_are_released_or_taken_out (.inl rfl) jumpHeld _ hdown rfl).1 _ hup rfl
    (by decide)⟩

/-- A binding that is held is gone after its removal, and after a reset of its function, and nothing is told of
its release. -/
theorem held_jump_vanishes :
    heldJump ∈ (Operation.run jumpHeld {}).table.bindings ∧ heldJump.isDown ∧
      ((Operation.remove 0).apply (Operation.run jumpHeld {})).table.get? 0 = none ∧
      (Operation.remove 0).told (Operation.run jumpHeld {}) = [.removed heldJump] ∧
      ((Operation.reset "Jump").apply (Operation.run jumpHeld {})).table.get? 0 = none ∧
      (Operation.reset "Jump").told (Operation.run jumpHeld {}) = [.removed heldJump] := by decide +kernel

end KeyConsole.Keybinds
