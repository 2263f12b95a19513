import KeyConsole.Proofs.Dispatch.TableHistory
import KeyConsole.Proofs.Keyboard.Specificity

/-!
# Proofs.Dispatch.ModifierOrder: where the number of modifiers decides on the place

A table stands in descending order of packed combinations.  Of two bindings of one base key the one comes first that
has the greater modifier where their modifiers, the greatest first, begin to differ.  So more modifiers come first if
the fewer ones are among them, but one great modifier comes before two smaller ones.
-/

namespace KeyConsole.Dispatch

open Keyboard (Key Combo)

variable {a b : Binding}

/-- Two bindings of a table stand in descending order of their combinations. -/
theorem Table.pair_sublist_iff {t : Table} (ht : t.Sorted) (ha : a ∈ t.bindings) (hb : b ∈ t.bindings)
    (hne : a.combo.packed ≠ b.combo.packed) :
    [a, b].Sublist t.bindings ↔ b.combo.packed < a.combo.packed := by
  rw [Ne, ← UInt32.toNat_inj] at hne
  rw [UInt32.lt_iff_toNat_lt]
  have hlower : ∀ {x y : Binding}, Binding.precedes x y → y.combo.packed.toNat ≤ x.combo.packed.toNat := by
    intro x y hxy
    rw [Binding.precedes_iff] at hxy
    omega
  refine ⟨fun hpair => ?_, fun hlt => ?_⟩
  · have hab : Binding.precedes a b := by simpa using List.Pairwise.sublist hpair ht
    have := hlower hab
    omega
  · obtain ⟨front, behind, hsplit⟩ := List.append_of_mem ha
    unfold Table.Sorted at ht
    rw [hsplit] at ht hb ⊢
    rcases List.mem_append.mp hb with hfront | hrest
    · -- what stands in front of a binding is not smaller
      have hba := hlower ((List.pairwise_append.mp ht).2.2 b hfront a List.mem_cons_self)
      omega
    · rcases List.mem_cons.mp hrest with rfl | hbehind
      · exact absurd hlt (Nat.lt_irrefl _)
      · exact ((List.singleton_sublist.mpr hbehind).cons_cons a).trans (List.sublist_append_right front _)

namespace TableCall

variable {calls : List TableCall}

theorem packed_run (hpacked : ∀ b, .register b ∈ calls → b.combo.Packed) :
    ∀ b ∈ (run calls {}).bindings, b.combo.Packed := by
  induction calls using List.reverseRecOn with
  | nil => exact fun b hb => absurd hb List.not_mem_nil
  | append_singleton calls c ih =>
    have hpast := ih fun b hb => hpacked b (List.mem_append_left [c] hb)
    rw [run_concat]
    cases c with
    | register b =>
      intro x hx
      rcases (Table.mem_insert x).mp hx with rfl | hx
      · exact hpacked x (by simp)
      · exact hpast x hx
    | remove id => exact fun x hx => hpast x (List.mem_of_mem_eraseP hx)

/-- Whatever is registered and removed, of two bindings the one with more modifiers stands first just if it has the
greater modifier where the modifiers, the greatest first, begin to differ, and else it stands behind.  It stands first
if the modifiers of the other one differ from each other and are all among its own. -/
theorem more_modifiers_first_iff (hpacked : ∀ b, .register b ∈ calls → b.combo.Packed)
    (ha : a ∈ (run calls {}).bindings) (hb : b ∈ (run calls {}).bindings)
    (hmore : b.combo.modifierCount < a.combo.modifierCount) :
    ([a, b].Sublist (run calls {}).bindings ↔ b.combo.modifiers < a.combo.modifiers) ∧
      ([b, a].Sublist (run calls {}).bindings ↔ a.combo.modifiers < b.combo.modifiers) ∧
      (b.combo.used.Nodup → b.combo.used ⊆ a.combo.used → [a, b].Sublist (run calls {}).bindings) := by
  have hsorted := sorted_run calls
  have hpacka := packed_run hpacked a ha
  have hpackb := packed_run hpacked b hb
  have hmods : b.combo.modifiers ≠ a.combo.modifiers := by
    intro heq
    rw [Combo.modifierCount, Combo.modifierCount, heq] at hmore
    exact Nat.lt_irrefl _ hmore
  have hne : a.combo.packed ≠ b.combo.packed := fun heq =>
    hmods (congrArg (fun packed => Combo.modifiers ⟨packed⟩) heq.symm)
  have hfirst : [a, b].Sublist (run calls {}).bindings ↔ b.combo.modifiers < a.combo.modifiers := by
    rw [Table.pair_sublist_iff hsorted ha hb hne, Combo.packed_lt_iff hpackb hpacka]
    simp [hmods]
  refine ⟨hfirst, ?_, fun hnodup hsub => ?_⟩
  · rw [Table.pair_sublist_iff hsorted hb ha hne.symm, Combo.packed_lt_iff hpacka hpackb]
    simp [hmods.symm]
  · exact hfirst.mpr (Combo.modifiers_lt_of_subset hpackb hpacka hnodup hsub hmods)

/-- The calls that register some registrations, with ids from zero on. -/
def registering (rs : List Registration) : List TableCall :=
  (rs.zipIdx.filterMap fun (r, id) => Binding.ofRegistration? id r).map .register

theorem packed_registering {rs : List Registration} (h : .register b ∈ registering rs) : b.combo.Packed := by
  obtain ⟨x, hx, heq⟩ := List.mem_map.mp h
  obtain rfl := TableCall.register.inj heq
  obtain ⟨⟨r, id⟩, -, hr⟩ := List.mem_filterMap.mp hx
  exact (Dispatcher.ofRegistration?_eq_some hr).2.2.2

/-- Two bindings of the key A, and the modifiers of the second one include that of the first. -/
def nested : List TableCall := registering [
  { function := "Sneak", base := .keyA, mod1 := .control },
  { function := "Roll", base := .keyA, mod1 := .control, mod2 := .shift }]

/-- A binding of the key A with two modifiers. -/
def onA (id : Nat) (function : String) (great small : Key) : Binding :=
  { id, function, kind := .state, canFocus := false, canRepeat := false, allowSubCombos := false, priority := 0
    combo := ⟨Combo.ofBytes Key.keyA.code 0 small.code great.code⟩ }

theorem more_modifiers_first_iff_nested :
    (onA 0 "Sneak" .control .unknown).combo.modifierCount < (onA 1 "Roll" .shift .control).combo.modifierCount ∧
      [onA 1 "Roll" .shift .control, onA 0 "Sneak" .control .unknown].Sublist (run nested {}).bindings := by
  have hpacked : ∀ b, .register b ∈ nested → b.combo.Packed := fun b hb => packed_registering hb
  have hmore : (onA 0 "Sneak" .control .unknown).combo.modifierCount
      < (onA 1 "Roll" .shift .control).combo.modifierCount := by decide
  obtain ⟨-, -, hfirst⟩ := more_modifiers_first_iff hpacked (by decide +kernel) (by decide +kernel) hmore
  exact ⟨hmore, hfirst (by decide) (by decide)⟩

/-- Two bindings of the key A, the first with one great modifier and the second with two smaller ones. -/
def crossed : List TableCall := registering [
  { function := "Dash", base := .keyA, mod1 := .alt },
  { function := "Sneak", base := .keyA, mod1 := .control, mod2 := .shift }]

/-- A binding with one modifier stands before one of the same base key with two. -/
theorem alt_stands_before_control_shift :
    (run crossed {}).bindings.map (·.text) = ["Dash: Alt+A", "Sneak: Control+Shift+A"] ∧
      (run crossed {}).bindings.map (·.combo.base) = [.keyA, .keyA] ∧
      (run crossed {}).bindings.map (·.combo.modifierCount) = [1, 2] := by decide +kernel

end TableCall

end KeyConsole.Dispatch
