import KeyConsole.Proofs.Dispatch.Listing
import KeyConsole.Proofs.Dispatch.TableHistory

/-!
# Proofs.Dispatch.CanonicalRegistrations: what the registrations of a table are

A binding does not know in which order its modifiers were given, so its registration has them in descending order.
Registrations that are put into a table come out like that, stably sorted.
-/

namespace KeyConsole.Dispatch

open Keyboard (Combo)
open Ordered (sorted)

namespace Registration

/-- The registration with its modifiers in descending order, unused ones last. -/
def canonical (r : Registration) : Registration :=
  let mods := Combo.descending r.mod1 r.mod2 r.mod3
  { r with mod1 := mods.1, mod2 := mods.2.1, mod3 := mods.2.2 }

/-- What registrations are sorted by: the combination, then the priority. -/
def rank (r : Registration) : ℕ ×ₗ ℤ :=
  toLex ((Combo.pack? r.base r.mod1 r.mod2 r.mod3).elim 0 (·.packed.toNat), r.priority)

/-- The registrations in descending order of combination and priority, equal ones in the order they are in. -/
def ranked (rs : List Registration) : List Registration := rs.mergeSort fun a b => decide (b.rank ≤ a.rank)

end Registration

namespace Binding

variable {id : Nat} {b : Binding} {r : Registration} {bs : List Binding} {rs : List Registration}

theorem toRegistration_of_ofRegistration? (h : ofRegistration? id r = some b) : b.toRegistration = r.canonical := by
  obtain ⟨combo, hcombo, rfl⟩ := Option.map_eq_some_iff.mp h
  obtain ⟨hbase, hmods⟩ := Combo.slot_of_pack? hcombo
  simp only [toRegistration, Registration.canonical, ← hmods, hbase]

theorem ofRegistration?_isSome (h : r.base ≠ .unknown) (id : Nat) : ∃ b, ofRegistration? id r = some b := by
  unfold ofRegistration?
  rw [Combo.pack?_known h]
  exact ⟨_, rfl⟩

theorem rank_toRegistration (h : b.combo.Packed) : b.toRegistration.rank = b.rank := by
  unfold Registration.rank rank toRegistration
  rw [h.pack?_slots]
  rfl

/-- The registrations of bindings in order are in order too. -/
theorem map_toRegistration_sorted (hbs : ∀ b ∈ bs, b.combo.Packed) :
    (sorted precedes bs).map toRegistration = Registration.ranked (bs.map toRegistration) := by
  rw [Ordered.sorted_eq_mergeSort ranks_precedes]
  refine List.map_mergeSort fun a ha b hb => ?_
  rw [precedes_eq_rank, rank_toRegistration (hbs a ha), rank_toRegistration (hbs b hb)]

theorem packed_of_shape? (h : shape? r = some b) : b.combo.Packed := (Dispatcher.ofRegistration?_eq_some h).2.2.2

/-- Registrations of known keys come out as they are, but for the order of their modifiers. -/
theorem map_toRegistration_shapes (hrs : ∀ r ∈ rs, r.base ≠ .unknown) :
    (rs.filterMap shape?).map toRegistration = rs.map Registration.canonical := by
  induction rs with
  | nil => rfl
  | cons r rs ih =>
    obtain ⟨hr, hrs⟩ := List.forall_mem_cons.mp hrs
    obtain ⟨b, hb⟩ : ∃ b, shape? r = some b := ofRegistration?_isSome hr 0
    rw [List.filterMap_cons_some hb, List.map_cons, List.map_cons, ih hrs, toRegistration_of_ofRegistration? hb]

end Binding

theorem shapesOf_eq_nil_iff {function : String} {rs : List Registration} (hrs : ∀ r ∈ rs, r.base ≠ .unknown) :
    shapesOf function rs = [] ↔ ∀ r ∈ rs, r.function ≠ function := by
  have hshapes : (shapesOf function rs).map Binding.toRegistration = _ :=
    Binding.map_toRegistration_shapes fun r hr => hrs r (List.mem_of_mem_filter hr)
  rw [← List.map_eq_nil_iff, hshapes, List.map_eq_nil_iff, List.filter_eq_nil_iff]
  simp

/-- The registrations of a function that has been given its bindings one after the other. -/
theorem Table.map_toRegistration_bindingsFor {t : Table} {function : String} {rs : List Registration}
    (h : t.shapesFor function = sorted Binding.precedes (shapesOf function rs)) (hrs : ∀ r ∈ rs, r.base ≠ .unknown) :
    (t.bindingsFor function).map Binding.toRegistration
      = Registration.ranked ((rs.filter (·.function = function)).map Registration.canonical) := by
  have hpacked : ∀ b ∈ shapesOf function rs, b.combo.Packed := by
    intro b hb
    obtain ⟨r, -, hr⟩ := List.mem_filterMap.mp hb
    exact Binding.packed_of_shape? hr
  calc (t.bindingsFor function).map Binding.toRegistration
    _ = (t.shapesFor function).map Binding.toRegistration := by
        rw [Table.shapesFor, List.map_map]
        rfl
    _ = Registration.ranked ((shapesOf function rs).map Binding.toRegistration) := by
        rw [h, Binding.map_toRegistration_sorted hpacked]
    _ = Registration.ranked ((rs.filter (·.function = function)).map Registration.canonical) := by
        rw [shapesOf, Binding.map_toRegistration_shapes fun r hr => hrs r (List.mem_of_mem_filter hr)]

end KeyConsole.Dispatch
