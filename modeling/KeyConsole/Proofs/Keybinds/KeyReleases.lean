import KeyConsole.Proofs.Dispatch.LostKeys
import KeyConsole.Proofs.Dispatch.Queueing
import KeyConsole.Proofs.Keybinds.HeldReleases
import KeyConsole.Proofs.Keybinds.NothingStuck

/-!
# Proofs.Keybinds.KeyReleases: a release lets go just what used the key

A release lets go the bindings that are down, are no toggles and use its key, or a modifier that goes off with it.
Each of them is told of once.  No other binding changes, nothing is queued, and only the key and the flags go off.
-/

namespace KeyConsole.Keybinds

open Dispatch
open Keyboard (Event Flags)

variable {d : Dispatcher} {b : Binding} {e : Event} {id : Nat}

/-- A release lets a binding go: it is down and no toggle, and it uses the key, or a modifier that was reported as
held, is so no longer, and is not held by its own key either, once the key has gone off. -/
def LetGo (e : Event) (d : Dispatcher) (b : Binding) : Prop :=
  b.state = .down ∧ b.kind ≠ .toggle ∧ ∃ k ∈ b.combo.keys, k = e.key ∨
    k ∈ Flags.keys ∧ d.reported.has k ∧ ¬e.flags.has k ∧ k ∉ d.held.filter (· ≠ e.key)

instance (e : Event) (d : Dispatcher) (b : Binding) : Decidable (LetGo e d b) :=
  inferInstanceAs (Decidable (_ ∧ _ ∧ _))

theorem deprived_lostKeys (e : Event) (d : Dispatcher) (b : Binding) :
    b.deprived (d.lostKeys e) = if LetGo e d b then { b with state := .up } else b := by
  have hlost : ∀ k, d.lostKeys e k = true ↔ k = e.key ∨
      k ∈ Flags.keys ∧ d.reported.has k ∧ ¬e.flags.has k ∧ k ∉ d.held.filter (· ≠ e.key) := by
    intro k
    simp only [Dispatcher.lostKeys, Bool.or_eq_true, Bool.and_eq_true, decide_eq_true_eq, List.contains_iff_mem,
      Bool.not_eq_true', ← Bool.not_eq_true, and_assoc]
  have hletGo : LetGo e d b ↔ b.isHeld ∧ b.combo.keys.any (d.lostKeys e) := by
    simp only [LetGo, List.any_eq_true, hlost, Binding.isHeld_iff, and_assoc]
  unfold Binding.deprived Binding.released
  by_cases hany : b.combo.keys.any (d.lostKeys e) <;> by_cases hheld : b.isHeld <;> simp [hletGo, hany, hheld]

/-- The table after a release. -/
theorem bindings_keyUp (hs : d.Sound) (hd : d.Settled) (hkey : e.key ≠ .unknown) :
    (d.keyUp e).2.table.bindings
      = d.table.bindings.map fun b => if LetGo e d b then { b with state := .up } else b := by
  have hloses := (Dispatcher.keyUp_spec hs hd hkey).1
  unfold Dispatcher.Loses at hloses
  rw [hloses, funext (deprived_lostKeys e d)]

/-- A release tells of no binding that it does not let go. -/
theorem changes_told_of_stays (hs : d.Sound) (hd : d.Settled) (hkey : e.key ≠ .unknown)
    (hstays : ∀ b ∈ d.table.bindings, LetGo e d b → b.id ≠ id) :
    changes id ((Operation.keyUp e).told d) = [] := by
  obtain ⟨ns, hdelivered⟩ : Dispatcher.Delivers false d (d.keyUp e).2 := Dispatcher.delivers_keyUp e d
  obtain ⟨ns', hns', hups⟩ := Dispatcher.releases_alongReleases.keyUp e d
  obtain rfl : ns = ns' := List.append_cancel_left (hdelivered.journal.symm.trans hns')
  have htold : (Operation.keyUp e).told d = ns := told_of_journal hns'
  rw [htold]
  cases hget : d.table.get? id with
  | none => exact (hdelivered.absent id hget).2
  | some b =>
    obtain ⟨hb, hid⟩ := Table.get?_mem hget
    obtain ⟨b', hb', -, hway⟩ := hdelivered.way id b hget
    have hkept : b' = b := by
      rw [(Dispatcher.keyUp_spec hs hd hkey).1.get?, hget, Option.map_some, deprived_lostKeys,
        if_neg fun h => hstays b hb h hid] at hb'
      exact (Option.some.inj hb').symm
    rw [hkept] at hway
    exact (hway.all_up (hups id)).trans (if_pos rfl)

/-- A release brings up just the bindings that it lets go, each by one transition that is passed on.  It tells of no
other binding and queues nothing; its key is not held any more, and the flags are those of the event. -/
theorem release_lets_go_what_used_the_key {start : Dispatcher} (hstart : start = {} ∨ start = engineDispatcher)
    {ops : List Operation} (hops : ∀ op ∈ ops, op.isOrdinary) {e : Event} (hkey : e.key ≠ .unknown) :
    let d := Operation.run ops start
    let d' := (Operation.keyUp e).apply d
    let told := (Operation.keyUp e).told d
    (d'.table.bindings = d.table.bindings.map fun b => if LetGo e d b then { b with state := .up } else b) ∧
    (∀ b ∈ d.table.bindings, LetGo e d b → changes b.id told = [(.down, .up)] ∧
      ∃ before rest, told = before ++ .transition b.id .down .up :: rest ∧
        PassedOn ⟨b.function, .up, b.canFocus⟩ rest) ∧
    (∀ id, (∀ b ∈ d.table.bindings, LetGo e d b → b.id ≠ id) → changes id told = []) ∧
    d'.queued = d.queued ∧ d'.held = d.held.filter (· ≠ e.key) ∧ d'.reported = e.flags := by
  intro d d' told
  have hs : d.Sound := sound_run (sound_start hstart) ops
  have hsorted : d.table.Sorted := sorted_run (sorted_start hstart) ops
  have hd : d.Settled := settled_run (sound_start hstart) (settled_start hstart) hops
  have hbindings := bindings_keyUp hs hd hkey
  obtain ⟨-, hheld, hreported⟩ := Dispatcher.keyUp_spec hs hd hkey
  refine ⟨hbindings, fun b hb hgoes => ?_, fun id => changes_told_of_stays hs hd hkey,
    (Dispatcher.idle_alongReleases.keyUp e d).queued, hheld, hreported⟩
  have hb' : { b with state := .up } ∈ d'.table.bindings := by
    refine hbindings.symm ▸ List.mem_map.mpr ⟨b, hb, ?_⟩
    rw [if_pos hgoes]
  exact changes_told_of_release hs hsorted hb (Binding.isDown_iff.mpr hgoes.1) hb' rfl (by simp [Binding.isDown])

/-- A run that slides, walks and jumps with the map shown, the control key held and shift only reported. -/
def allHeld : List Operation := [
  .createContext "play" none, .addFunction "play" "Slide", .addFunction "play" "Walk", .addFunction "play" "Jump",
  .addFunction "play" "Map", .activate "play",
  .register { function := "Slide", base := .keyC, mod1 := .control },
  .register { function := "Walk", base := .keyW, mod1 := .shift },
  .register { function := "Jump", base := .space },
  .register { function := "Map", kind := .toggle, base := .keyM },
  .keyDown { key := .control }, .keyDown { key := .keyM }, .keyDown { key := .space },
  .keyDown { key := .keyC, flags := { control := true } },
  .keyDown { key := .keyW, flags := { control := true, shift := true } }]

/-- When the space bar is let go and no flag is on, the shift key is lost as well, but the control key is not, as it is
held by itself; the toggle stays. -/
theorem release_lets_go_what_used_the_key_allHeld :
    (∀ op ∈ allHeld, op.isOrdinary) ∧
      (Operation.run allHeld {}).downFunctions = ["Walk", "Slide", "Jump", "Map"] ∧
      ((Operation.keyUp { key := .space }).apply (Operation.run allHeld {})).downFunctions = ["Slide", "Map"] ∧
      ((Operation.keyUp { key := .space }).apply (Operation.run allHeld {})).reported = {} ∧
      ∀ b ∈ (Operation.run allHeld {}).table.bindings, LetGo { key := .space } (Operation.run allHeld {}) b →
        changes b.id ((Operation.keyUp { key := .space }).told (Operation.run allHeld {})) = [(.down, .up)] := by
  have hops : ∀ op ∈ allHeld, op.isOrdinary := by decide
  have hdown : (Operation.run allHeld {}).downFunctions = ["Walk", "Slide", "Jump", "Map"] := by decide +kernel
  have hleft : ((Operation.keyUp { key := .space }).apply (Operation.run allHeld {})).downFunctions
      = ["Slide", "Map"] := by decide +kernel
  obtain ⟨-, htold, -, -, -, hreported⟩ :=
    release_lets_go_what_used_the_key (.inl rfl) hops (e := { key := .space }) (by decide)
  exact ⟨hops, hdown, hleft, hreported, fun b hb hgoes => (htold b hb hgoes).1⟩

end KeyConsole.Keybinds
