import KeyConsole.Proofs.Dispatch.CanonicalRegistrations
import KeyConsole.Proofs.Keybinds.Layering

/-!
# Proofs.Keybinds.UserLayer: the user's entries take the place of the shipped ones

The functions that the user's file mentions in valid entries, or leaves empty, have the bindings of that file and count
as modified.  All others have the shipped ones.
-/

namespace KeyConsole.Keybinds

open Dispatch

/-- The registrations that some entries have for a function, with their modifiers in descending order and stably sorted
by descending combination and priority. -/
def boundBy (entries : List Entry) (function : String) : List Registration :=
  Registration.ranked ((entries.filter (·.function = function)).map (·.registration.canonical))

theorem shapesOf_registrations_ne_nil {known : List String} {entries : List Entry} {function : String} :
    shapesOf function (registrations known entries) ≠ []
      ↔ ∃ e ∈ entries, e.isValid known ∧ e.function = function := by
  rw [ne_eq, shapesOf_eq_nil_iff fun r hr => base_ne_of_mem_registrations hr, registrations_eq]
  simp [Entry.registration, and_assoc]

/-- A function that has been given the bindings of some entries has the registrations of those that are valid. -/
theorem registrations_of_entries {t : Table} {known : List String} {entries : List Entry} {function : String}
    (h : t.shapesFor function = Ordered.sorted Binding.precedes (shapesOf function (registrations known entries))) :
    (t.bindingsFor function).map Binding.toRegistration = boundBy (entries.filter (·.isValid known)) function := by
  have hfilter : ((entries.filter (·.isValid known)).map Entry.registration).filter (·.function = function)
      = ((entries.filter (·.isValid known)).filter (·.function = function)).map Entry.registration := List.filter_map
  rw [Table.map_toRegistration_bindingsFor h fun r hr => base_ne_of_mem_registrations hr, registrations_eq, hfilter,
    List.map_map]
  rfl

theorem isValid_shippedEntries : ∀ e ∈ shippedEntries, e.isValid engineDispatcher.known := by
  decide +kernel

/-- After the user's file and the shipped one have been loaded, the functions of the user's valid entries and those that
the user leaves empty count as modified, and no others.  A modified function has just the bindings of the user's valid
entries for it, and any other just those of the shipped entries, in each case with the modifiers in descending order,
and stably sorted by descending combination and priority. -/
theorem user_entries_replace_shipped_ones (user : KeybindFile) (function : String) :
    let d := loadKeybinds (some user) engineDispatcher
    let valid := user.entries.filter (·.isValid engineDispatcher.known)
    (d.isModified function ↔ (∃ e ∈ valid, e.function = function) ∨ function ∈ user.leaveEmpty) ∧
    (d.isModified function → (d.table.bindingsFor function).map Binding.toRegistration = boundBy valid function) ∧
    (¬d.isModified function →
      (d.table.bindingsFor function).map Binding.toRegistration = boundBy shippedEntries function) := by
  intro d valid
  have hmodified : d.isModified function ↔ function ∈ d.modified := List.contains_iff_mem
  have hshapes := shapesFor_loadKeybinds unbound_engineDispatcher (some user) function
  refine ⟨?_, fun h => ?_, fun h => ?_⟩
  · rw [hmodified, mem_modified_loadKeybinds, shapesOf_registrations_ne_nil]
    simp [valid, engineDispatcher, and_assoc]
  · rw [if_pos h] at hshapes
    exact registrations_of_entries hshapes
  · rw [if_neg h] at hshapes
    have hall : shippedFile.entries.filter (·.isValid engineDispatcher.known) = shippedEntries :=
      List.filter_eq_self.mpr isValid_shippedEntries
    rw [← hall]
    exact registrations_of_entries hshapes

end KeyConsole.Keybinds
