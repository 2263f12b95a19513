import KeyConsole.Proofs.Dispatch.MostSpecific
import KeyConsole.Proofs.Keybinds.Operation

/-!
# Proofs.Keybinds.FiredCombinations: the combination that fires, among those it shares keys with

In every run a press fires the greatest combination that can fire and has the key, the modifiers compared first.  One
that covers it is passed over only if keys change their roles: its base key is a modifier of the one that fires, or
this one names a key twice.  The combinations that the fired one covers are released likewise, if they are smaller.
-/

namespace KeyConsole.Keybinds

open Dispatch
open Dispatcher (takenOver)
open Keyboard (Key Event Combo)

variable {m : Combo}

/-! ### Larger combinations -/

/-- The combination that a press fires can fire, has the key and is the greatest such, by the modifiers and then by
the base key.  So one that covers it and can fire along with the key is passed over only if its base key is a modifier
of the fired one, or the fired one names a key twice. -/
theorem greatest_combination_fires {start : Dispatcher} (hstart : start = {} ∨ start = engineDispatcher)
    (ops : List Operation) (e : Event) (hfires : (Operation.run ops start).fires? e = some m) :
    (∃ b ∈ (takenOver e (Operation.run ops start)).ready, b.combo = m) ∧ m.contains e.key ∧
      ∀ b ∈ (takenOver e (Operation.run ops start)).ready, b.combo.contains e.key → b.combo ≠ m →
        (b.combo.modifiers < m.modifiers ∨ b.combo.modifiers = m.modifiers ∧ b.combo.base < m.base) ∧
        (b.combo.covers m → b.combo.base ∈ m.modifiers ∨ ¬m.keys.Nodup) := by
  have hs := sound_run (sound_start hstart) ops
  have hsorted := sorted_run (sorted_start hstart) ops
  generalize Operation.run ops start = d at hs hsorted hfires ⊢
  obtain ⟨hselected, -⟩ := Dispatcher.keyDown_of_fires hfires
  have hkeyed : Dispatcher.Keyed d (takenOver e d) := Dispatcher.keyed_alongReleases.takenOver e d
  have hs' := hs.keyed hkeyed
  have hsorted' := hkeyed.alike.sorted hsorted
  obtain ⟨⟨first, hfirst, rfl⟩, hgreatest⟩ := Dispatcher.selected_greatest hsorted' hselected
  have hpacked : ∀ b ∈ (takenOver e d).ready, b.combo.Packed := fun b hb =>
    hs'.packed b (Dispatcher.mem_ready.mp hb).1
  refine ⟨⟨first, hfirst, rfl⟩, (Dispatcher.ready_split hsorted' hselected).1, fun b hb hk hne => ⟨?_, ?_⟩⟩
  · have hle := hgreatest b hb hk
    rw [← Combo.packed_lt_iff (hpacked b hb) (hpacked first hfirst), UInt32.lt_iff_toNat_lt]
    rw [UInt32.lt_iff_toNat_lt] at hle
    have hpne : b.combo.packed.toNat ≠ first.combo.packed.toNat := fun heq =>
      hne (congrArg Combo.mk (UInt32.toNat_inj.mp heq))
    omega
  · intro hcovers
    by_contra hroles
    rw [not_or, not_not] at hroles
    exact hgreatest b hb hk
      (Combo.packed_lt_of_covers (hpacked b hb) (hpacked first hfirst) hcovers hne.symm hroles.2 hroles.1)

/-- A binding of a key with two modifiers, up. -/
def plain (id : Nat) (function : String) (base great small : Key) : Binding :=
  { id, function, kind := .state, canFocus := false, canRepeat := false, allowSubCombos := false, priority := 0
    combo := ⟨Combo.ofBytes base.code 0 small.code great.code⟩ }

/-- A run that holds the modifiers of a combination and of a smaller one. -/
def sneaking : List Operation := [
  .createContext "play" none, .addFunction "play" "Sneak", .addFunction "play" "Roll", .activate "play",
  .register { function := "Sneak", base := .keyA, mod1 := .control },
  .register { function := "Roll", base := .keyA, mod1 := .control, mod2 := .shift },
  .keyDown { key := .control }, .keyDown { key := .shift }]

theorem greatest_combination_fires_sneaking :
    (Operation.run sneaking {}).fires? { key := .keyA } = some (plain 1 "Roll" .keyA .shift .control).combo ∧
      plain 0 "Sneak" .keyA .control .unknown ∈ (takenOver { key := .keyA } (Operation.run sneaking {})).ready ∧
      ((plain 0 "Sneak" .keyA .control .unknown).combo.modifiers
          < (plain 1 "Roll" .keyA .shift .control).combo.modifiers ∨
        (plain 0 "Sneak" .keyA .control .unknown).combo.modifiers
            = (plain 1 "Roll" .keyA .shift .control).combo.modifiers ∧
          (plain 0 "Sneak" .keyA .control .unknown).combo.base
            < (plain 1 "Roll" .keyA .shift .control).combo.base) := by
  have hfires : (Operation.run sneaking {}).fires? { key := .keyA }
      = some (plain 1 "Roll" .keyA .shift .control).combo := by decide +kernel
  have hready : plain 0 "Sneak" .keyA .control .unknown
      ∈ (takenOver { key := .keyA } (Operation.run sneaking {})).ready := by decide +kernel
  obtain ⟨-, -, hgreatest⟩ := greatest_combination_fires (.inl rfl) sneaking { key := .keyA } hfires
  exact ⟨hfires, hready, (hgreatest _ hready (by decide) (by decide)).1⟩

/-- A run that holds two keys of a combination whose third key is A. -/
def dashing : List Operation := [
  .createContext "play" none, .addFunction "play" "Dash", .addFunction "play" "Roll", .activate "play",
  .register { function := "Dash", base := .keyA, mod1 := .control },
  .register { function := "Roll", base := .control, mod1 := .keyA, mod2 := .keyB },
  .keyDown { key := .control }, .keyDown { key := .keyB }]

/-- A press of A fires the combination with Control, though the one with Control and B can fire too and has both keys
of it and one more. -/
theorem dash_fires_before_roll :
    (Operation.run dashing {}).fires? { key := .keyA } = some (plain 0 "Dash" .keyA .control .unknown).combo ∧
      ((Operation.run dashing {}).keyDown { key := .keyA }).2.downFunctions = ["Dash"] ∧
      plain 1 "Roll" .control .keyB .keyA ∈ (takenOver { key := .keyA } (Operation.run dashing {})).ready ∧
      (plain 1 "Roll" .control .keyB .keyA).combo.contains .keyA ∧
      (plain 1 "Roll" .control .keyB .keyA).combo.covers (plain 0 "Dash" .keyA .control .unknown).combo ∧
      ¬(plain 0 "Dash" .keyA .control .unknown).combo.covers (plain 1 "Roll" .control .keyB .keyA).combo := by
  decide +kernel

/-! ### Smaller combinations -/

/-- After a press that fires a combination alone, no live binding that goes up with its keys is down whose combination
is covered by the fired one and smaller.  It is smaller if it names no key twice and the base key of the fired one is
none of its modifiers. -/
theorem covered_combinations_are_released {start : Dispatcher} (hstart : start = {} ∨ start = engineDispatcher)
    (ops : List Operation) (e : Event) (hfires : (Operation.run ops start).fires? e = some m)
    (halone : (takenOver e (Operation.run ops start)).fireAlong m = false) {b : Binding}
    (hb : b ∈ ((Operation.run ops start).keyDown e).2.table.bindings) (hkind : b.kind = .state)
    (hlive : (Operation.run ops start).contexts.isLive b.function) (hne : b.combo ≠ m)
    (hcovers : m.covers b.combo) :
    (b.combo.packed < m.packed → ¬b.isDown) ∧
      (b.combo.keys.Nodup → m.base ∉ b.combo.modifiers → b.combo.packed < m.packed) := by
  have hs := sound_run (sound_start hstart) ops
  have hsorted := sorted_run (sorted_start hstart) ops
  have hpacked := (hs.keyed (Dispatcher.keyed_keyDown e _)).packed b hb
  refine ⟨Dispatcher.not_isDown_of_covered hs hsorted hfires halone hb hkind hlive hcovers, ?_⟩
  exact Combo.packed_lt_of_covers (Dispatcher.packed_of_fires hs hfires) hpacked hcovers hne

/-- A run that holds the key of `Crouch`, which is also one of `Slide`. -/
def crouching : List Operation := [
  .createContext "play" none, .addFunction "play" "Crouch", .addFunction "play" "Slide", .activate "play",
  .register { function := "Crouch", base := .keyC },
  .register { function := "Slide", base := .keyC, mod1 := .control },
  .keyDown { key := .keyC }]

theorem covered_combinations_are_released_crouching :
    { plain 0 "Crouch" .keyC .unknown .unknown with state := .down } ∈ (Operation.run crouching {}).table.bindings ∧
      (Operation.run crouching {}).fires? { key := .control }
        = some (plain 1 "Slide" .keyC .control .unknown).combo ∧
      plain 0 "Crouch" .keyC .unknown .unknown
        ∈ ((Operation.run crouching {}).keyDown { key := .control }).2.table.bindings ∧
      ¬(plain 0 "Crouch" .keyC .unknown .unknown).isDown := by
  have hfires : (Operation.run crouching {}).fires? { key := .control }
      = some (plain 1 "Slide" .keyC .control .unknown).combo := by decide +kernel
  have hb : plain 0 "Crouch" .keyC .unknown .unknown
      ∈ ((Operation.run crouching {}).keyDown { key := .control }).2.table.bindings := by decide +kernel
  obtain ⟨hreleased, hsmaller⟩ := covered_combinations_are_released (.inl rfl) crouching { key := .control } hfires
    (by decide +kernel) hb rfl (by decide +kernel) (by decide) (by decide)
  exact ⟨by decide +kernel, hfires, hb, hreleased (hsmaller (by decide) (by decide))⟩

/-- A binding that is down and has been withdrawn from the active context is not released by a press that covers
it. -/
theorem withdrawn_crouch_stays_down :
    (Operation.run (crouching ++ [.removeFunction "play" "Crouch"]) {}).fires? { key := .control }
        = some (plain 1 "Slide" .keyC .control .unknown).combo ∧
      (takenOver { key := .control } (Operation.run (crouching ++ [.removeFunction "play" "Crouch"]) {})).fireAlong
        (plain 1 "Slide" .keyC .control .unknown).combo = false ∧
      (plain 1 "Slide" .keyC .control .unknown).combo.covers (plain 0 "Crouch" .keyC .unknown .unknown).combo ∧
      (plain 0 "Crouch" .keyC .unknown .unknown).combo ≠ (plain 1 "Slide" .keyC .control .unknown).combo ∧
      { plain 0 "Crouch" .keyC .unknown .unknown with state := .down } ∈
        ((Operation.run (crouching ++ [.removeFunction "play" "Crouch"]) {}).keyDown
          { key := .control }).2.table.bindings := by decide +kernel

end KeyConsole.Keybinds
