import KeyConsole.Keybinds.File
import KeyConsole.Proofs.Keyboard.KeyNames
import Mathlib.Data.List.ReduceOption

/-!
# Proofs.Keybinds.ReadableEntries: what an entry says

An entry is readable if all its names are names of keys.  Then it stands for a registration with a base key.
-/

namespace KeyConsole.Keybinds.Entry

open Dispatch (Registration)
open Keyboard (Key)

variable {ε α β : Type} {e : Entry}

/-- The names of keys in an entry. -/
def keyNames (e : Entry) : List String := e.key :: [e.mod1, e.mod2, e.mod3].reduceOption

/-- Every name in the entry is one of a key. -/
def isReadable (e : Entry) : Bool := e.keyNames.all fun name => (Key.ofName? name).isSome

/-- The key with a name, unknown if there is none. -/
def keyOf (name : Option String) : Key := (name.bind Key.ofName?).getD .unknown

/-- What a readable entry says. -/
def registration (e : Entry) : Registration where
  function := e.function
  kind := e.kind
  base := keyOf (some e.key)
  mod1 := keyOf e.mod1
  mod2 := keyOf e.mod2
  mod3 := keyOf e.mod3
  priority := e.priority
  canFocus := e.canFocus
  canRepeat := e.canRepeat
  allowSubCombos := e.allowSubCombos

theorem isReadable_iff : e.isReadable ↔ (Key.ofName? e.key).isSome ∧
    (∀ name ∈ e.mod1, (Key.ofName? name).isSome) ∧ (∀ name ∈ e.mod2, (Key.ofName? name).isSome) ∧
      ∀ name ∈ e.mod3, (Key.ofName? name).isSome := by
  simp only [isReadable, keyNames, List.all_eq_true, List.mem_cons, List.reduceOption_mem_iff, List.not_mem_nil,
    or_false, Option.mem_def, or_imp, forall_and, forall_eq, @eq_comm _ (some _)]

theorem keyNamed_known {name : String} (h : (Key.ofName? name).isSome) : e.keyNamed name = .ok (keyOf (some name)) := by
  obtain ⟨k, hk⟩ := Option.isSome_iff_exists.mp h
  simp [keyNamed, keyOf, hk]

theorem keyNamed_unknown {name : String} (h : ¬(Key.ofName? name).isSome) :
    e.keyNamed name = .error ⟨e.function, name⟩ := by
  rw [Option.not_isSome_iff_eq_none] at h
  rw [keyNamed, h]

theorem modifierNamed_known {m : Option String} (h : ∀ name ∈ m, (Key.ofName? name).isSome) :
    e.modifierNamed m = .ok (keyOf m) := by
  cases m with
  | none => rfl
  | some name =>
    rw [modifierNamed]
    exact keyNamed_known (h name (Option.mem_some_self name))

theorem modifierNamed_unknown {m : Option String} (h : ¬∀ name ∈ m, (Key.ofName? name).isSome) :
    ∃ fault, e.modifierNamed m = .error fault := by
  obtain ⟨name, hname⟩ := not_forall.mp h
  obtain ⟨rfl, hnone⟩ := Classical.not_imp.mp hname
  rw [modifierNamed]
  exact ⟨_, keyNamed_unknown hnone⟩

/-- A readable entry stands for what it says, and any other for nothing. -/
theorem toOption_toRegistration (e : Entry) :
    e.toRegistration.toOption = if e.isReadable then some e.registration else none := by
  have hreadable := isReadable_iff (e := e)
  unfold toRegistration
  by_cases hkey : (Key.ofName? e.key).isSome
  · rw [keyNamed_known hkey]
    by_cases h1 : ∀ name ∈ e.mod1, (Key.ofName? name).isSome
    · rw [modifierNamed_known h1]
      by_cases h2 : ∀ name ∈ e.mod2, (Key.ofName? name).isSome
      · rw [modifierNamed_known h2]
        by_cases h3 : ∀ name ∈ e.mod3, (Key.ofName? name).isSome
        · rw [modifierNamed_known h3, if_pos (hreadable.mpr ⟨hkey, h1, h2, h3⟩)]
          rfl
        · obtain ⟨fault, hfault⟩ := modifierNamed_unknown (e := e) h3
          rw [hfault, if_neg fun h => h3 (hreadable.mp h).2.2.2]
          rfl
      · obtain ⟨fault, hfault⟩ := modifierNamed_unknown (e := e) h2
        rw [hfault, if_neg fun h => h2 (hreadable.mp h).2.2.1]
        rfl
    · obtain ⟨fault, hfault⟩ := modifierNamed_unknown (e := e) h1
      rw [hfault, if_neg fun h => h1 (hreadable.mp h).2.1]
      rfl
  · rw [keyNamed_unknown hkey, if_neg fun h => hkey (hreadable.mp h).1]
    rfl

/-- A readable entry has a base key. -/
theorem base_registration (h : e.isReadable) : e.registration.base ≠ .unknown := by
  obtain ⟨k, hk⟩ := Option.isSome_iff_exists.mp (isReadable_iff.mp h).1
  have hbase : e.registration.base = k := by simp [registration, keyOf, hk]
  exact hbase ▸ Key.ofName?_ne_unknown hk

end KeyConsole.Keybinds.Entry
