import KeyConsole.Proofs.Dispatch.Resets
import KeyConsole.Proofs.Keybinds.Alternation
import KeyConsole.Proofs.Keybinds.EditingHistory

/-!
# Proofs.Keybinds.FunctionResets: a reset touches one function

What is shipped is remembered, and all of it has base keys.  So a reset of a function brings back a binding for every
entry that is remembered for it, and leaves all other functions as they are.
-/

namespace KeyConsole.Keybinds

open Dispatch
open Dispatcher (restored)

variable {d : Dispatcher} {op : Operation} {function : String}

/-! ### What is remembered -/

/-- Only files add to what is remembered, and nothing takes from it. -/
theorem shipped_apply (hs : d.Sound) (hop : ¬op.loads) : (op.apply d).shipped = d.shipped := by
  have hkeyed : ∀ {d' : Dispatcher}, Dispatcher.Keyed d d' → d'.shipped = d.shipped := fun h =>
    (congrArg Dispatcher.shipped h.rest :)
  cases op with
  | keyDown e => exact hkeyed (Dispatcher.keyed_keyDown e d)
  | keyUp e => exact hkeyed (Dispatcher.keyed_keyUp e d)
  | activate name =>
    rw [Operation.apply]
    cases h : d.setActiveContext name with
    | error fault => rfl
    | ok d' =>
      obtain ⟨-, ⟨-, rfl⟩ | ⟨-, rfl⟩ | ⟨old, -, rfl⟩⟩ := Dispatcher.setActiveContext_eq_ok h
      · rfl
      · rfl
      · exact (congrArg Dispatcher.shipped (Dispatcher.moved_raiseAll _ (Dispatcher.activated name d)).rest :)
  | register r => exact (congrArg Dispatcher.shipped (Dispatcher.insertBinding_rest r true d) :)
  | remove id =>
    rw [Operation.apply]
    cases h : d.removeBinding id with
    | none => rfl
    | some p =>
      obtain ⟨-, heq⟩ := Dispatcher.deleteBinding_eq_some h
      rw [Option.elim_some, heq]
      rfl
  | reset function => exact Dispatcher.shipped_resetFunction hs.distinct function
  | resetAll order =>
    rw [Operation.apply]
    split
    · exact Dispatcher.shipped_resetFunctions hs order
    · rfl
  | applyFile file byUser => exact absurd rfl hop
  | load user => exact absurd rfl hop
  | _ => rfl

/-- All that is remembered as shipped has base keys, as entries without them are not accepted. -/
theorem base_ne_of_mem_shipped (hs : d.Sound) (hd : ∀ r ∈ d.shipped, r.base ≠ .unknown) (ops : List Operation) :
    ∀ r ∈ (Operation.run ops d).shipped, r.base ≠ .unknown := by
  have hstep : ∀ (d : Dispatcher) (op : Operation), d.Sound → (∀ r ∈ d.shipped, r.base ≠ .unknown) →
      ∀ r ∈ (op.apply d).shipped, r.base ≠ .unknown := by
    intro d op hs hd r hr
    by_cases hop : op.loads
    · cases op with
      | applyFile file byUser =>
        rw [Operation.apply, shipped_loadFile, List.mem_append] at hr
        rcases hr with hr | hr
        · exact hd r hr
        · split at hr
          · cases hr
          · exact base_ne_of_mem_registrations hr
      | load user =>
        rw [Operation.apply, shipped_loadKeybinds, List.mem_append] at hr
        rcases hr with hr | hr
        · exact hd r hr
        · exact base_ne_of_mem_registrations hr
      | _ => cases hop
    · rw [shipped_apply hs hop] at hr
      exact hd r hr
  exact (Operation.run_induction (P := fun d => d.Sound ∧ ∀ r ∈ d.shipped, r.base ≠ .unknown) (Q := fun _ => True)
    (fun d op _ h => ⟨sound_apply h.1 op, hstep d op h.1 h.2⟩) (fun _ _ => trivial) ⟨hs, hd⟩).2

/-! ### Resets -/

/-- A reset of a function brings in a binding for each entry that is remembered as shipped for it, up and with the next
ids, and these are its bindings, stably sorted by descending combination and priority.  Everybody is told once of each
binding that goes, then of each that comes.  The function does not count as modified any more; other functions count as
before, and their bindings stay as they are.  A further reset changes the ids, and nothing else of the table. -/
theorem reset_touches_one_function {start : Dispatcher} (hstart : start = {} ∨ start = engineDispatcher)
    (ops : List Operation) (function : String) :
    let d := Operation.run ops start
    let d' := (Operation.reset function).apply d
    let d'' := (Operation.reset function).apply d'
    let entries := d.shipped.filter (·.function = function)
    (∃ news : List Binding,
      news.map (·.toRegistration) = entries.map (·.canonical) ∧
      news.map (·.id) = List.range' d.nextId entries.length ∧ (∀ b ∈ d.table.bindings, b.id < d.nextId) ∧
      (∀ b ∈ news, b.state = .up) ∧
      d'.table.bindingsFor function = news.mergeSort (fun a b => decide (b.rank ≤ a.rank)) ∧
      (Operation.reset function).told d
        = (d.table.bindingsFor function).map .removed ++ news.map .added) ∧
    (∀ other, d'.isModified other = (decide (other ≠ function) && d.isModified other)) ∧
    d'.table.bindings.filter (·.function ≠ function) = d.table.bindings.filter (·.function ≠ function) ∧
    d''.table.bindings.map (fun b => { b with id := 0 }) = d'.table.bindings.map (fun b => { b with id := 0 }) ∧
    d'' = { d' with table := d''.table, nextId := d''.nextId, journal := d''.journal } := by
  intro d d' d'' entries
  have hs : d.Sound := sound_run (sound_start hstart) ops
  have ht : d.table.Sorted := sorted_run (sorted_start hstart) ops
  have hnone : ∀ r ∈ start.shipped, r.base ≠ .unknown := by
    rcases hstart with rfl | rfl <;> exact fun r hr => absurd hr List.not_mem_nil
  have hbases : ∀ r ∈ entries, r.base ≠ .unknown := fun r hr =>
    base_ne_of_mem_shipped (sound_start hstart) hnone ops r (List.mem_of_mem_filter hr)
  have hspec : d' = _ := Dispatcher.resetFunction_spec hs.distinct function
  obtain ⟨htable, hrest⟩ := Dispatcher.resetFunction_again hs ht function
  refine ⟨⟨restored function d, Binding.map_toRegistration_made hbases _, ?_, hs.fresh,
    fun b hb => Binding.state_of_mem_made hb, ?_, told_of_journal (congrArg Dispatcher.journal hspec :)⟩, fun other => ?_,
    Dispatcher.filter_resetFunction hs.distinct ht function, htable, hrest⟩
  · rw [← Binding.length_made hbases d.nextId]
    exact Binding.map_id_made _ _
  · rw [← Binding.sorted_precedes]
    exact Dispatcher.bindingsFor_resetFunction hs.distinct ht function
  · have hmodified : d'.modified = d.modified.filter (· ≠ function) :=
      Dispatcher.modified_resetFunction hs.distinct function
    rw [Dispatcher.isModified, hmodified, Dispatcher.isModified]
    by_cases hother : other = function <;> simp [hother]

/-- A run that ships two bindings of a function, to which the user adds a third, and one of another function. -/
def jumpEdited : List Operation := [
  .registerFunction "Jump",
  .applyFile { entries := [
    { function := "Jump", key := "Space" },
    { function := "Jump", key := "J", mod1 := some "Control", mod2 := some "Shift" }] } false,
  .register { function := "Jump", base := .keyK }, .register { function := "Run", base := .keyR }]

theorem reset_touches_one_function_jumpEdited :
    (Operation.run jumpEdited {}).modified = ["Jump", "Run"] ∧
      ((Operation.reset "Jump").apply (Operation.run jumpEdited {})).table.bindings.map (fun b => (b.id, b.text))
        = [(5, "Jump: Control+Shift+J"), (4, "Jump: Space"), (3, "Run: R")] ∧
      (∃ news : List Binding, news.map (·.id) = [4, 5] ∧
        ((Operation.reset "Jump").apply (Operation.run jumpEdited {})).table.bindingsFor "Jump"
          = news.mergeSort (fun a b => decide (b.rank ≤ a.rank))) ∧
      ∀ other, ((Operation.reset "Jump").apply (Operation.run jumpEdited {})).isModified other
        = (decide (other ≠ "Jump") && (Operation.run jumpEdited {}).isModified other) := by
  have hmodified : (Operation.run jumpEdited {}).modified = ["Jump", "Run"] := by decide +kernel
  have htable : ((Operation.reset "Jump").apply (Operation.run jumpEdited {})).table.bindings.map
      (fun b => (b.id, b.text)) = [(5, "Jump: Control+Shift+J"), (4, "Jump: Space"), (3, "Run: R")] := by
    decide +kernel
  have hids : List.range' (Operation.run jumpEdited {}).nextId
      ((Operation.run jumpEdited {}).shipped.filter (·.function = "Jump")).length = [4, 5] := by decide +kernel
  obtain ⟨⟨news, -, hnews, -, -, hbindings, -⟩, hothers, -⟩ := reset_touches_one_function (.inl rfl) jumpEdited "Jump"
  exact ⟨hmodified, htable, ⟨news, hnews.trans hids, hbindings⟩, hothers⟩

end KeyConsole.Keybinds
