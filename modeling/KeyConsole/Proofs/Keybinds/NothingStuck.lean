import KeyConsole.Proofs.Dispatch.HeldBindings
import KeyConsole.Proofs.Keybinds.Operation

/-!
# Proofs.Keybinds.NothingStuck: no binding stays down that is not held

A run of operations that neither withdraws functions nor makes contexts active behind the dispatcher's back
leaves only justified bindings down.  Without a key pressed these are toggles.
-/

namespace KeyConsole.Keybinds

open Dispatch
open Keyboard (Flags)

variable {d : Dispatcher}

theorem settled_apply (hs : d.Sound) (hd : d.Settled) {op : Operation} (hop : op.isOrdinary) :
    (op.apply d).Settled := by
  cases op with
  | keyDown e => exact hd.keyDown hs e
  | keyUp e => exact hd.keyUp hs e
  | activate name =>
    simp only [Operation.apply]
    cases h : d.setActiveContext name with
    | error fault => exact hd
    | ok d' => exact hd.setActiveContext hs h
  | register r => exact hd.edited (.insertBinding r true d)
  | remove id => exact hd.edited (.deleteBinding id true d)
  | reset function => exact hd.edited (.resetFunction d function)
  | resetAll order =>
    simp only [Operation.apply]
    split
    · exact hd.edited (.resetFunctions order d)
    · exact hd
  | applyFile file byUser => exact hd.edited (edited_loadFile file byUser d)
  | load user => exact hd.edited (edited_loadKeybinds user d)
  | createContext name parent =>
    refine hd.contexts fun f hf => ?_
    cases h : d.contexts.create name parent with
    | error fault => exact hf
    | ok cs => exact (hs.tree.isLive_create h f).trans hf
  | removeContext name =>
    refine hd.contexts fun f hf => ?_
    cases h : d.contexts.remove name with
    | error fault => exact hf
    | ok cs => exact (hs.tree.isLive_remove h f).trans hf
  | addFunction context function => exact hd.contexts fun f hf => Contexts.isLive_addFunction hf
  | removeFunction context function => cases hop
  | redirect name => cases hop
  | _ => exact hd

theorem settled_run (hs : d.Sound) (hd : d.Settled) {ops : List Operation}
    (hops : ∀ op ∈ ops, op.isOrdinary) : (Operation.run ops d).Settled := by
  have hrun := Operation.run_induction (P := fun d => d.Sound ∧ d.Settled) (Q := fun op => op.isOrdinary)
    (fun d op hop h => ⟨sound_apply h.1 op, settled_apply h.1 h.2 hop⟩) hops ⟨hs, hd⟩
  exact hrun.2

theorem settled_start (h : d = {} ∨ d = engineDispatcher) : d.Settled := by
  rcases h with rfl | rfl
  · exact fun b hb => absurd hb List.not_mem_nil
  · exact fun b hb => absurd hb List.not_mem_nil

/-- What is down is no command and live, and pressed with all its keys if it is no toggle; so without a key
held or reported, only toggles are down. -/
theorem nothing_stuck {start : Dispatcher} (hstart : start = {} ∨ start = engineDispatcher)
    {ops : List Operation} (hops : ∀ op ∈ ops, op.isOrdinary) :
    (∀ b ∈ (Operation.run ops start).table.bindings, b.isDown →
      b.kind ≠ .command ∧ (Operation.run ops start).contexts.isLive b.function ∧
        (b.kind = .state → ∀ k ∈ b.combo.keys,
          k ∈ (Operation.run ops start).held ∨ (Operation.run ops start).reported.has k)) ∧
    ((Operation.run ops start).held = [] → (Operation.run ops start).reported = {} →
      ∀ b ∈ (Operation.run ops start).table.bindings, b.isDown → b.kind = .toggle) := by
  have hsound := sound_run (sound_start hstart) ops
  have hsettled := settled_run (sound_start hstart) (settled_start hstart) hops
  have hheld : ∀ b ∈ (Operation.run ops start).table.bindings, b.isDown →
      b.kind ≠ .command ∧ (Operation.run ops start).contexts.isLive b.function ∧
        (b.kind = .state → ∀ k ∈ b.combo.keys,
          k ∈ (Operation.run ops start).held ∨ (Operation.run ops start).reported.has k) := by
    intro b hb hdown
    obtain ⟨hkind, hlive, hpressed⟩ := hsettled b hb hdown
    refine ⟨hkind, hlive, fun hstate k hk => ?_⟩
    simpa [Dispatcher.isPressed] using Dispatcher.isFullyPressed_iff.mp (hpressed hstate) k hk
  refine ⟨hheld, fun hnone hoff b hb hdown => ?_⟩
  obtain ⟨hkind, -, hpressed⟩ := hheld b hb hdown
  cases hk : b.kind with
  | toggle => rfl
  | command => exact absurd hk hkind
  | state =>
    -- a packed combination has a base key, which would have to be pressed
    have hbase := hpressed hk b.combo.base (hsound.packed b hb).base_mem_keys
    rw [hnone, hoff] at hbase
    rcases hbase with hbase | hbase
    · cases hbase
    · rw [Flags.has_none] at hbase
      cases hbase

/-- A run that holds the space bar and turns a toggle on. -/
def spaceHeld : List Operation := [
  .createContext "play" none, .addFunction "play" "Jump", .addFunction "play" "Map", .activate "play",
  .register { function := "Jump", base := .space },
  .register { function := "Map", kind := .toggle, base := .keyM },
  .keyDown { key := .keyM }, .keyUp { key := .keyM }, .keyDown { key := .space }]

theorem nothing_stuck_spaceHeld :
    (∀ op ∈ spaceHeld, op.isOrdinary) ∧ (Operation.run spaceHeld {}).downFunctions = ["Jump", "Map"] ∧
      ∀ b ∈ (Operation.run spaceHeld {}).table.bindings, b.isDown → b.kind = .state →
        ∀ k ∈ b.combo.keys, k ∈ (Operation.run spaceHeld {}).held ∨
          (Operation.run spaceHeld {}).reported.has k := by
  have hops : ∀ op ∈ spaceHeld, op.isOrdinary := by decide
  have hdown : (Operation.run spaceHeld {}).downFunctions = ["Jump", "Map"] := by decide +kernel
  exact ⟨hops, hdown, fun b hb hbdown => ((nothing_stuck (.inl rfl) hops).1 b hb hbdown).2.2⟩

end KeyConsole.Keybinds
