import KeyConsole.Proofs.Dispatch.Toggles
import KeyConsole.Proofs.Keybinds.Operation

/-!
# Proofs.Keybinds.Presses: what presses do, whatever has happened before

The table of every run is in order, so a press means what it selects.  Toggles turn at presses, and when the
context is left in which they are live.
-/

namespace KeyConsole.Keybinds

open Dispatch
open Dispatcher (askHook pressKind takenOver readied offerAll OfferedInTurn)
open Keyboard (Event)

/-! ### Meaning -/

/-- A press that is looked at and that the hook does not keep does nothing more if no binding that can fire has
its key.  Otherwise what the selected combination forces up is released first, and then the bindings of the
combination and what fires along are offered the press in table order, until one deals with it. -/
theorem press_means_its_selection {start : Dispatcher} (hstart : start = {} ∨ start = engineDispatcher)
    (ops : List Operation) (e : Event) (henabled : (Operation.run ops start).enabled)
    (hkey : e.key ≠ .unknown) (hhook : (askHook e (pressKind e) (Operation.run ops start)).1.handled = false) :
    ((takenOver e (Operation.run ops start)).selected? e.key = none →
      ((Operation.run ops start).keyDown e).2 = takenOver e (Operation.run ops start)) ∧
    ∀ m, (takenOver e (Operation.run ops start)).selected? e.key = some m →
      ∃ uiOnly begun made left, readied m (takenOver e (Operation.run ops start)) = (uiOnly, begun) ∧
        OfferedInTurn uiOnly e.isRepeat begun ((takenOver e (Operation.run ops start)).offered m) made left ∧
        ((Operation.run ops start).keyDown e).2 = offerAll uiOnly e.isRepeat made begun := by
  set d := Operation.run ops start
  have hsorted : (takenOver e d).table.Sorted :=
    (Dispatcher.alike_takenOver e d).sorted (sorted_run (sorted_start hstart) ops)
  have hfired : (d.keyDown e).2 = Dispatcher.fired e (takenOver e d) := by
    rw [Dispatcher.keyDown_eq, if_neg (by simp [henabled, hkey]), if_neg (by simp [hhook])]
    rfl
  rw [hfired]
  refine ⟨Dispatcher.fired_none, fun m hm => ?_⟩
  obtain ⟨made, left, hoffered, hall⟩ :=
    Dispatcher.pressAll_eq (readied m (takenOver e d)).1 e.isRepeat ((takenOver e d).offered m)
      (readied m (takenOver e d)).2
  exact ⟨_, _, made, left, rfl, hoffered, (Dispatcher.fired_some hsorted hm).trans hall⟩

/-- A run that holds the key of `Crouch`, which is also the modifier of `Slide`. -/
def crouched : List Operation := [
  .createContext "play" none, .addFunction "play" "Crouch", .addFunction "play" "Slide", .activate "play",
  .register { function := "Crouch", base := .control },
  .register { function := "Slide", base := .keyC, mod1 := .control, allowSubCombos := true },
  .keyDown { key := .control }]

theorem press_means_its_selection_crouched :
    ((takenOver { key := .keyC } (Operation.run crouched {})).selected? .keyC).map (·.text) = some "Control+C" ∧
      ∀ m, (takenOver { key := .keyC } (Operation.run crouched {})).selected? .keyC = some m →
        ((takenOver { key := .keyC } (Operation.run crouched {})).offered m).map (·.function)
            = ["Slide", "Crouch"] ∧
          ∃ uiOnly begun made left,
            readied m (takenOver { key := .keyC } (Operation.run crouched {})) = (uiOnly, begun) ∧
            OfferedInTurn uiOnly false begun
              ((takenOver { key := .keyC } (Operation.run crouched {})).offered m) made left ∧
            ((Operation.run crouched {}).keyDown { key := .keyC }).2 = offerAll uiOnly false made begun := by
  obtain ⟨-, hmeaning⟩ := press_means_its_selection (.inl rfl) crouched { key := .keyC } (by decide +kernel)
    (by decide) (by decide +kernel)
  have hselected : (takenOver { key := .keyC } (Operation.run crouched {})).selected? .keyC
      = some ⟨956301324⟩ := by decide +kernel
  refine ⟨by decide +kernel, fun m hm => ⟨?_, hmeaning m hm⟩⟩
  obtain rfl : _ = m := Option.some.inj (hselected.symm.trans hm)
  decide +kernel

/-! ### Toggles -/

/-- A toggle turns in two ways only.  A switch of the context turns it up, if it is down and its function is no
longer live.  A press turns it if it is fully pressed and the key is one of its own, or one of the selected
combination if that covers its own and lets others fire along; a repeated press does not turn it up. -/
theorem toggles_turn_at_presses_and_switches {start : Dispatcher} (hstart : start = {} ∨ start = engineDispatcher)
    (ops : List Operation) (op : Operation) {b b' : Binding} (hb : b ∈ (Operation.run ops start).table.bindings)
    (hkind : b.kind = .toggle) (hb' : b' ∈ (op.apply (Operation.run ops start)).table.bindings)
    (hid : b'.id = b.id) (hne : b'.state ≠ b.state) :
    (∃ name, op = .activate name ∧ b.state = .down ∧ b'.state = .up ∧
      (Operation.run ops start).contexts.isLive b.function ∧
      ¬(op.apply (Operation.run ops start)).contexts.isLive b.function) ∨
    ∃ e, op = .keyDown e ∧ (b.isDown → e.isRepeat = false) ∧
      b ∈ (takenOver e (Operation.run ops start)).ready ∧
      (b.combo.contains e.key ∨
        ∃ m, (takenOver e (Operation.run ops start)).selected? e.key = some m ∧ m.contains e.key ∧
          (takenOver e (Operation.run ops start)).fireAlong m ∧ m.covers b.combo) := by
  have hs := sound_run (sound_start hstart) ops
  have hsorted := sorted_run (sorted_start hstart) ops
  generalize Operation.run ops start = d at hb hb' hs hsorted ⊢
  have hget := hs.distinct.get?_eq_some hb
  have hget' : (op.apply d).table.get? b.id = some b' := hid ▸ (sound_apply hs op).distinct.get?_eq_some hb'
  have hstill : (op.apply d).table.get? b.id = some b → False := by
    intro hsame
    exact hne (by rw [Option.some.inj (hget'.symm.trans hsame)])
  rcases apply_cases d op with hedited | ⟨e, rfl⟩ | ⟨e, rfl⟩ | ⟨name, d', rfl, h, happly⟩ | ⟨htable, -, -⟩
  · -- an edit leaves a binding in its state
    have hold := hedited.old hb' (hid ▸ hs.fresh b hb)
    exact absurd (by rw [hs.distinct.eq_of_id hold hb hid]) hne
  · obtain ⟨hrepeat, hready, m, hselected, hk, hcombo⟩ := Dispatcher.toggle_keyDown hs hsorted hget hkind hget' hne
    refine .inr ⟨e, rfl, hrepeat, hready, ?_⟩
    rcases hcombo with rfl | ⟨hallow, hcovers⟩
    · exact .inl hk
    · exact .inr ⟨m, hselected, hk, hallow, hcovers⟩
  · exact (hstill (Dispatcher.keepsToggles_alongReleases.keyUp e d _ b hkind hget)).elim
  · rw [happly] at hget' ⊢
    exact .inl ⟨name, rfl, Dispatcher.turned_setActiveContext hs hget h hget' hne⟩
  · exact (hstill (htable ▸ hget)).elim

/-- A run that leaves the toggle `Map` down, whose key is also the modifier of `Slide`. -/
def mapOpen : List Operation := [
  .createContext "play" none, .addFunction "play" "Map", .addFunction "play" "Slide", .activate "play",
  .register { function := "Map", kind := .toggle, base := .control },
  .register { function := "Slide", base := .keyC, mod1 := .control, allowSubCombos := true },
  .keyDown { key := .control }]

/-- The toggle of the run, down. -/
def openMap : Binding where
  id := 0
  function := "Map"
  kind := .toggle
  combo := ⟨57⟩
  canFocus := false
  canRepeat := false
  allowSubCombos := false
  priority := 0
  state := .down

theorem toggles_turn_at_presses_and_switches_openMap :
    openMap ∈ (Operation.run mapOpen {}).table.bindings ∧ openMap.kind = .toggle ∧
      openMap.atRest ∈ ((Operation.keyDown { key := .control }).apply (Operation.run mapOpen {})).table.bindings ∧
      ((∃ name, Operation.keyDown { key := .control } = .activate name ∧ openMap.state = .down ∧
          openMap.atRest.state = .up ∧ (Operation.run mapOpen {}).contexts.isLive "Map" ∧
          ¬((Operation.keyDown { key := .control }).apply (Operation.run mapOpen {})).contexts.isLive "Map") ∨
        ∃ e, Operation.keyDown { key := .control } = .keyDown e ∧ (openMap.isDown → e.isRepeat = false) ∧
          openMap ∈ (takenOver e (Operation.run mapOpen {})).ready ∧
          (openMap.combo.contains e.key ∨
            ∃ m, (takenOver e (Operation.run mapOpen {})).selected? e.key = some m ∧ m.contains e.key ∧
              (takenOver e (Operation.run mapOpen {})).fireAlong m ∧ m.covers openMap.combo)) := by
  have hdown : openMap ∈ (Operation.run mapOpen {}).table.bindings := by decide +kernel
  have hup : openMap.atRest ∈
      ((Operation.keyDown { key := .control }).apply (Operation.run mapOpen {})).table.bindings := by decide +kernel
  exact ⟨hdown, rfl, hup, toggles_turn_at_presses_and_switches (.inl rfl) mapOpen _ hdown rfl hup rfl (by decide)⟩

/-- A press of `Slide` turns `Map` up along with it, though its key is none of those of `Map`. -/
theorem slide_turns_map :
    openMap ∈ (Operation.run mapOpen {}).table.bindings ∧ openMap.kind = .toggle ∧ openMap.isDown ∧
      openMap.atRest ∈ ((Operation.keyDown { key := .keyC }).apply (Operation.run mapOpen {})).table.bindings ∧
      ¬openMap.atRest.isDown ∧ ¬openMap.combo.contains .keyC := by decide +kernel

end KeyConsole.Keybinds
