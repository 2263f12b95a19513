import KeyConsole.Proofs.Dispatch.CanonicalRegistrations

/-!
# Proofs.Dispatch.Resets: what a reset makes of a dispatcher

Registrations that are inserted become bindings with the next ids, in their order.  A reset takes the bindings of its
function out and inserts what is shipped for it, and nothing else is touched.
-/

namespace KeyConsole.Dispatch

open Ordered (InOrder sorted)

namespace Binding

variable {next : Nat} {b : Binding} {rs : List Registration}

/-- The bindings that registrations become, with ids from some id on; what has no base key is passed over. -/
def made (next : Nat) : List Registration → List Binding
  | [] => []
  | r :: rs => (ofRegistration? next r).elim (made next rs) fun b => b :: made (next + 1) rs

theorem made_cons_none {r : Registration} (h : ofRegistration? next r = none) :
    made next (r :: rs) = made next rs := by
  rw [made, h, Option.elim_none]

theorem made_cons_some {r : Registration} (h : ofRegistration? next r = some b) :
    made next (r :: rs) = b :: made (next + 1) rs := by
  rw [made, h, Option.elim_some]

/-- Every binding is that of one of the registrations. -/
theorem exists_of_mem_made (hb : b ∈ made next rs) : ∃ r ∈ rs, ∃ id, ofRegistration? id r = some b := by
  induction rs generalizing next with
  | nil => cases hb
  | cons r rs ih =>
    cases h : ofRegistration? next r with
    | none =>
      rw [made_cons_none h] at hb
      obtain ⟨r', hr', hmade⟩ := ih hb
      exact ⟨r', List.mem_cons_of_mem r hr', hmade⟩
    | some c =>
      rw [made_cons_some h] at hb
      rcases List.mem_cons.mp hb with rfl | hb
      · exact ⟨r, List.mem_cons_self, next, h⟩
      · obtain ⟨r', hr', hmade⟩ := ih hb
        exact ⟨r', List.mem_cons_of_mem r hr', hmade⟩

theorem state_of_mem_made (hb : b ∈ made next rs) : b.state = .up := by
  obtain ⟨r, -, id, hr⟩ := exists_of_mem_made hb
  exact (Dispatcher.ofRegistration?_eq_some hr).2.1

theorem map_id_made (next : Nat) (rs : List Registration) :
    (made next rs).map (·.id) = List.range' next (made next rs).length := by
  induction rs generalizing next with
  | nil => rfl
  | cons r rs ih =>
    cases h : ofRegistration? next r with
    | none => rw [made_cons_none h, ih]
    | some b =>
      rw [made_cons_some h, List.map_cons, ih, (Dispatcher.ofRegistration?_eq_some h).1, List.length_cons,
        List.range'_succ]

/-- But for the ids, it does not matter where they start. -/
theorem map_shape_made (next : Nat) (rs : List Registration) :
    (made next rs).map shape = rs.filterMap shape? := by
  induction rs generalizing next with
  | nil => rfl
  | cons r rs ih =>
    have hshape := shape?_eq next r
    cases h : ofRegistration? next r with
    | none =>
      rw [h] at hshape
      rw [made_cons_none h, ih, List.filterMap_cons_none hshape]
    | some b =>
      rw [h] at hshape
      rw [made_cons_some h, List.map_cons, ih, List.filterMap_cons_some hshape]

/-- Registrations of known keys all become bindings. -/
theorem map_toRegistration_made (hrs : ∀ r ∈ rs, r.base ≠ .unknown) (next : Nat) :
    (made next rs).map toRegistration = rs.map Registration.canonical := by
  rw [← map_toRegistration_shapes hrs, ← map_shape_made next, List.map_map]
  rfl

theorem length_made (hrs : ∀ r ∈ rs, r.base ≠ .unknown) (next : Nat) : (made next rs).length = rs.length := by
  simpa using congrArg List.length (map_toRegistration_made hrs next)

/-- The binding without its id. -/
def unnamed (b : Binding) : Binding := { b with id := 0 }

theorem precedes_unnamed (a b : Binding) : precedes a.unnamed b.unnamed = precedes a b := rfl

/-- What has just been made is up, so its shape is all of it but the id. -/
theorem map_unnamed_made (next : Nat) (rs : List Registration) :
    (made next rs).map unnamed = rs.filterMap shape? := by
  rw [← map_shape_made next]
  exact List.map_congr_left fun b hb => by rw [unnamed, shape, ← state_of_mem_made hb]

end Binding

namespace Dispatcher

variable {d : Dispatcher} {function : String}

/-- Registrations that are inserted become bindings with the next ids. -/
theorem insertAll_eq (rs : List Registration) (d : Dispatcher) :
    insertAll false rs d = { d with
      table := ⟨Ordered.insertAll Binding.precedes (Binding.made d.nextId rs) d.table.bindings⟩
      nextId := d.nextId + (Binding.made d.nextId rs).length
      journal := d.journal ++ (Binding.made d.nextId rs).map .added } := by
  induction rs generalizing d with
  | nil => simp [insertAll, Binding.made, Ordered.insertAll]
  | cons r rs ih =>
    cases h : Binding.ofRegistration? d.nextId r with
    | none =>
      have hstep : (d.insertBinding r false).elim d (·.2) = d := by simp [insertBinding, h]
      rw [insertAll_cons, hstep, ih, Binding.made_cons_none h]
    | some b =>
      have hstep : (d.insertBinding r false).elim d (·.2) = d.withBinding b d.modified := by
        simp [insertBinding, h, withBinding]
      rw [insertAll_cons, hstep, ih, Binding.made_cons_some h]
      simp [withBinding, note, Table.insert, Ordered.insertAll, Nat.add_assoc, Nat.add_comm 1]

/-- Each binding that is taken out is told of, and nothing else. -/
theorem journal_deleteAll {bs : List Binding} (hd : d.table.Distinct) (hbs : bs ⊆ d.table.bindings)
    (hnodup : (bs.map (·.id)).Nodup) :
    (deleteAll (bs.map (·.id)) d).journal = d.journal ++ bs.map .removed := by
  induction bs generalizing d with
  | nil => simp [deleteAll]
  | cons b bs ih =>
    obtain ⟨hb, hbs⟩ := List.cons_subset.mp hbs
    rw [List.map_cons] at hnodup
    obtain ⟨hnot, hnodup⟩ := List.nodup_cons.mp hnodup
    have hstep : (d.deleteBinding b.id false).elim d (·.2) = d.withoutBinding b d.modified := by
      simp [deleteBinding, hd.get?_eq_some hb, withoutBinding]
    have hrest : bs ⊆ (d.withoutBinding b d.modified).table.bindings := by
      intro c hc
      have hne : c.id ≠ b.id := fun hid => hnot (List.mem_map.mpr ⟨c, hc, hid⟩)
      simp only [withoutBinding, note]
      rw [Table.remove_bindings hd, List.mem_filter]
      exact ⟨hbs hc, by simpa using hne⟩
    have hcons : deleteAll (b.id :: bs.map (·.id)) d
        = deleteAll (bs.map (·.id)) ((d.deleteBinding b.id false).elim d (·.2)) := rfl
    rw [List.map_cons, hcons, hstep, ih (Table.distinct_remove hd) hrest hnodup]
    simp [withoutBinding, note]

theorem cleared_eq (hd : d.table.Distinct) (function : String) :
    cleared function d = { d with
      table := ⟨d.table.bindings.filter (·.function ≠ function)⟩
      journal := d.journal ++ (d.table.bindingsFor function).map .removed } := by
  have hjournal : (cleared function d).journal = d.journal ++ (d.table.bindingsFor function).map .removed :=
    journal_deleteAll hd (List.filter_subset_self _) (hd.sublist (List.filter_sublist.map _))
  rw [cleared_rest hd, hjournal]

/-- The bindings that a reset of a function brings in. -/
def restored (function : String) (d : Dispatcher) : List Binding :=
  Binding.made d.nextId (d.shipped.filter (·.function = function))

theorem function_restored {b : Binding} (hb : b ∈ restored function d) : b.function = function := by
  obtain ⟨r, hr, id, hmade⟩ := Binding.exists_of_mem_made hb
  rw [(ofRegistration?_eq_some hmade).2.2.1]
  exact of_decide_eq_true (List.mem_filter.mp hr).2

/-- All that a reset does. -/
theorem resetFunction_spec (hd : d.table.Distinct) (function : String) :
    d.resetFunction function = { d with
      table := ⟨Ordered.insertAll Binding.precedes (restored function d)
        (d.table.bindings.filter (·.function ≠ function))⟩
      nextId := d.nextId + (restored function d).length
      modified := d.modified.filter (· ≠ function)
      journal := d.journal ++ ((d.table.bindingsFor function).map .removed ++ (restored function d).map .added) } := by
  rw [resetFunction_eq, insertAll_eq, cleared_eq hd]
  simp only [restored, List.append_assoc]

/-- The bindings of other functions stay as they are. -/
theorem filter_resetFunction (hd : d.table.Distinct) (ht : d.table.Sorted) (function : String) :
    (d.resetFunction function).table.bindings.filter (·.function ≠ function)
      = d.table.bindings.filter (·.function ≠ function) := by
  have hnone : (restored function d).filter (·.function ≠ function) = [] := by
    rw [List.filter_eq_nil_iff]
    intro b hb
    simpa using function_restored hb
  rw [resetFunction_spec hd, Ordered.filter_insertAll Binding.ranks_precedes _ _ (ht.sublist List.filter_sublist),
    hnone, List.filter_filter]
  simp [Ordered.insertAll]

/-- The function has the bindings that have been brought in, and no others. -/
theorem bindingsFor_resetFunction (hd : d.table.Distinct) (ht : d.table.Sorted) (function : String) :
    (d.resetFunction function).table.bindingsFor function = sorted Binding.precedes (restored function d) := by
  have hall : (restored function d).filter (·.function = function) = restored function d := by
    rw [List.filter_eq_self]
    intro b hb
    simpa using function_restored hb
  have hnone : (d.table.bindings.filter (·.function ≠ function)).filter (·.function = function) = [] := by
    rw [List.filter_filter, List.filter_eq_nil_iff]
    simp
  rw [Table.bindingsFor, resetFunction_spec hd,
    Ordered.filter_insertAll Binding.ranks_precedes _ _ (ht.sublist List.filter_sublist), hall, hnone]
  rfl

/-- Insertion looks at combinations and priorities, so it may be looked at without the rest of the bindings. -/
theorem map_resetFunction {f : Binding → Binding} (hf : ∀ a b, Binding.precedes (f a) (f b) = Binding.precedes a b)
    (hd : d.table.Distinct) (function : String) :
    (d.resetFunction function).table.bindings.map f = Ordered.insertAll Binding.precedes ((restored function d).map f)
      ((d.table.bindings.filter (·.function ≠ function)).map f) := by
  rw [resetFunction_spec hd, Ordered.map_insertAll hf]

/-- But for the ids, a reset depends on what is shipped and on the bindings of the other functions only. -/
theorem map_unnamed_resetFunction (hd : d.table.Distinct) (function : String) :
    (d.resetFunction function).table.bindings.map Binding.unnamed
      = Ordered.insertAll Binding.precedes (shapesOf function d.shipped)
          ((d.table.bindings.filter (·.function ≠ function)).map Binding.unnamed) := by
  rw [map_resetFunction Binding.precedes_unnamed hd, restored, Binding.map_unnamed_made]
  rfl

/-- A further reset changes the ids. -/
theorem resetFunction_again (hs : d.Sound) (ht : d.table.Sorted) (function : String) :
    let d' := d.resetFunction function
    let d'' := d'.resetFunction function
    d''.table.bindings.map Binding.unnamed = d'.table.bindings.map Binding.unnamed ∧
      d'' = { d' with table := d''.table, nextId := d''.nextId, journal := d''.journal } := by
  intro d' d''
  have hs' : d'.Sound := hs.edited (Edited.resetFunction d function)
  have hothers : d'.table.bindings.filter (·.function ≠ function) = d.table.bindings.filter (·.function ≠ function) :=
    filter_resetFunction hs.distinct ht function
  have hshipped : d'.shipped = d.shipped := shipped_resetFunction hs.distinct function
  have hkept : d'.modified.filter (· ≠ function) = d'.modified := by
    have hmodified : d'.modified = d.modified.filter (· ≠ function) := modified_resetFunction hs.distinct function
    rw [hmodified, List.filter_filter]
    simp
  refine ⟨?_, ?_⟩
  · calc d''.table.bindings.map Binding.unnamed
      _ = Ordered.insertAll Binding.precedes (shapesOf function d'.shipped)
            ((d'.table.bindings.filter (·.function ≠ function)).map Binding.unnamed) :=
          map_unnamed_resetFunction hs'.distinct function
      _ = d'.table.bindings.map Binding.unnamed := by
          rw [hshipped, hothers]
          exact (map_unnamed_resetFunction hs.distinct function).symm
  · have hspec : d'' = _ := resetFunction_spec hs'.distinct function
    rw [hkept] at hspec
    rw [hspec]

/-- The shapes of the bindings, in table order. -/
def shapes (d : Dispatcher) : List Binding := d.table.bindings.map Binding.shape

theorem filter_shapes (p : String → Bool) (d : Dispatcher) :
    d.shapes.filter (fun b => p b.function) = (d.table.bindings.filter fun b => p b.function).map Binding.shape :=
  List.filter_map

theorem map_toRegistration_filter_shapes (p : String → Bool) (d : Dispatcher) :
    (d.shapes.filter fun b => p b.function).map Binding.toRegistration
      = (d.table.bindings.map Binding.toRegistration).filter fun r => p r.function := by
  rw [filter_shapes, List.map_map, List.filter_map]
  rfl

theorem inOrder_shapes (ht : d.table.Sorted) : InOrder Binding.precedes d.shapes := List.pairwise_map.mpr ht

theorem shapes_resetFunction (hd : d.table.Distinct) (function : String) :
    (d.resetFunction function).shapes = Ordered.insertAll Binding.precedes (shapesOf function d.shipped)
      (d.shapes.filter (·.function ≠ function)) := by
  rw [shapes, map_resetFunction Binding.precedes_shape hd, restored, Binding.map_shape_made,
    filter_shapes (· ≠ function)]
  rfl

/-- After the reset of some functions, the bindings of the others come first, and then, function by function, those
that are shipped, as far as the order of the table leaves that open. -/
theorem shapes_resetFunctions (hs : d.Sound) (ht : d.table.Sorted) {functions : List String} (hnodup : functions.Nodup) :
    (d.resetFunctions functions).shapes
      = Ordered.insertAll Binding.precedes (functions.flatMap fun f => shapesOf f d.shipped)
          (d.shapes.filter (·.function ∉ functions)) := by
  induction functions generalizing d with
  | nil =>
    have hall : d.shapes.filter (·.function ∉ ([] : List String)) = d.shapes := List.filter_eq_self.mpr (by simp)
    rw [hall]
    rfl
  | cons f fs ih =>
    obtain ⟨hf, hfs⟩ := List.nodup_cons.mp hnodup
    have hedited := Edited.resetFunction d f
    have hcons : d.resetFunctions (f :: fs) = (d.resetFunction f).resetFunctions fs := rfl
    have hkept : (shapesOf f d.shipped).filter (·.function ∉ fs) = shapesOf f d.shipped := by
      rw [List.filter_eq_self]
      intro b hb
      simpa [function_of_mem_shapesOf hb] using hf
    have hothers : (d.shapes.filter (·.function ≠ f)).filter (·.function ∉ fs)
        = d.shapes.filter (·.function ∉ f :: fs) := by
      rw [List.filter_filter]
      refine List.filter_congr fun b _ => ?_
      simp [Bool.and_comm]
    rw [hcons, ih (hs.edited hedited) (sorted_edited hedited ht) hfs, shipped_resetFunction hs.distinct,
      shapes_resetFunction hs.distinct,
      Ordered.filter_insertAll Binding.ranks_precedes _ _ ((inOrder_shapes ht).sublist List.filter_sublist), hkept, hothers,
      ← Ordered.insertAll_append]
    rfl

end Dispatcher

end KeyConsole.Dispatch
