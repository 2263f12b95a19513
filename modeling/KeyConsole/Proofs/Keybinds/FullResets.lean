import KeyConsole.Proofs.Dispatch.Resets
import KeyConsole.Proofs.Keybinds.EditingHistory

/-!
# Proofs.Keybinds.FullResets: what a full reset restores

Edits touch the bindings of the functions that count as modified then, and no others.  A full reset gives these functions
their shipped bindings back, one function after the other, so that they come behind all others of the same combination
and priority.
-/

namespace KeyConsole.Keybinds

open Dispatch
open Ordered (insertAll sorted)
open Dispatcher (Edited)

variable {rs : List Registration} {loaded d : Dispatcher} {modified modified' : List String}

/-- The bindings of the functions that are not modified stand as they have been loaded. -/
structure Apart (rs : List Registration) (loaded d : Dispatcher) : Prop extends Tracked rs d where
  nodup : d.modified.Nodup
  rest : d.shapes.filter (·.function ∉ d.modified) = loaded.shapes.filter (·.function ∉ d.modified)

/-- If more functions count as modified, there is less to compare. -/
theorem rest_mono {bs bs' : List Binding} (hsub : modified ⊆ modified')
    (h : bs.filter (·.function ∉ modified) = bs'.filter (·.function ∉ modified)) :
    bs.filter (·.function ∉ modified') = bs'.filter (·.function ∉ modified') := by
  have htwice : ∀ bs : List Binding,
      bs.filter (·.function ∉ modified') = (bs.filter (·.function ∉ modified)).filter (·.function ∉ modified') := by
    intro bs
    rw [List.filter_filter]
    refine List.filter_congr fun b _ => ?_
    by_cases hb : b.function ∈ modified
    · simp [hb, hsub hb]
    · simp [hb]
  rw [htwice bs, htwice bs', h]

theorem nodup_withName {names : List String} (h : names.Nodup) (name : String) : (withName names name).Nodup := by
  unfold withName
  split
  · exact h
  · rename_i hnot
    rw [← List.concat_eq_append]
    exact h.concat (by simpa using hnot)

theorem subset_withName (names : List String) (name : String) : names ⊆ withName names name :=
  fun _ hn => Dispatcher.mem_withName.mpr (.inl hn)

namespace Apart

theorem insertBinding (hd : Apart rs loaded d) (r : Registration) :
    Apart rs loaded ((d.insertBinding r true).elim d (·.2)) := by
  have htracked := hd.toTracked.insertBinding r
  cases h : d.insertBinding r true with
  | none => exact hd
  | some p =>
    obtain ⟨-, b, hb, heq⟩ := Dispatcher.insertBinding_eq_some h
    rw [h] at htracked
    refine ⟨htracked, ?_, ?_⟩
    · rw [Option.elim_some, heq]
      exact nodup_withName hd.nodup r.function
    · have hmodified : b.shape.function ∈ withName d.modified r.function :=
        Dispatcher.mem_withName.mpr (.inr (Dispatcher.ofRegistration?_eq_some hb).2.2.1)
      have hshapes : (d.withBinding b (withName d.modified r.function)).shapes
          = Ordered.insertSorted Binding.precedes b.shape d.shapes := Ordered.map_insertSorted Binding.precedes_shape
      have hinserted : (d.withBinding b (withName d.modified r.function)).shapes.filter
            (·.function ∉ withName d.modified r.function)
          = d.shapes.filter (·.function ∉ withName d.modified r.function) := by
        rw [hshapes, Ordered.filter_insertSorted Binding.ranks_precedes (Dispatcher.inOrder_shapes hd.inOrder),
          if_neg (by simpa using hmodified)]
      rw [Option.elim_some, heq, if_pos rfl]
      exact hinserted.trans (rest_mono (subset_withName d.modified r.function) hd.rest)

theorem deleteBinding (hd : Apart rs loaded d) (id : Nat) :
    Apart rs loaded ((d.deleteBinding id true).elim d (·.2)) := by
  have htracked := hd.toTracked.deleteBinding id
  cases h : d.deleteBinding id true with
  | none => exact hd
  | some p =>
    obtain ⟨hget, heq⟩ := Dispatcher.deleteBinding_eq_some h
    obtain ⟨hb, -⟩ := Table.get?_mem hget
    rw [h] at htracked
    refine ⟨htracked, ?_, ?_⟩
    · rw [Option.elim_some, heq]
      exact nodup_withName hd.nodup p.1.function
    · -- the binding that goes is one of a function that counts as modified from now on
      have hothers : (d.table.bindings.filter (·.id ≠ p.1.id)).filter (·.function ∉ withName d.modified p.1.function)
          = d.table.bindings.filter (·.function ∉ withName d.modified p.1.function) := by
        rw [List.filter_filter]
        refine List.filter_congr fun c hc => ?_
        by_cases hid : c.id = p.1.id
        · obtain rfl := hd.sound.distinct.eq_of_id hc hb hid
          simp [Dispatcher.mem_withName]
        · simp [hid]
      have hrest := rest_mono (subset_withName d.modified p.1.function) hd.rest
      rw [Dispatcher.filter_shapes (· ∉ withName d.modified p.1.function) d, ← hothers,
        ← Table.remove_bindings hd.sound.distinct] at hrest
      rw [Option.elim_some, heq, if_pos rfl]
      exact (Dispatcher.filter_shapes (· ∉ withName d.modified p.1.function) _).trans hrest

end Apart

/-- The operation registers a binding or removes one. -/
def Operation.isEdit : Operation → Bool
  | register _ | remove _ => true
  | _ => false

theorem apart_run (hd : Apart rs loaded d) {ops : List Operation} (hops : ∀ op ∈ ops, op.isEdit) :
    Apart rs loaded (Operation.run ops d) := by
  refine Operation.run_induction (P := Apart rs loaded) (Q := fun op => op.isEdit) (fun d op hop hd => ?_) hops hd
  cases op with
  | register r => exact hd.insertBinding r
  | remove id => exact hd.deleteBinding id
  | _ => cases hop

theorem modified_loadKeybinds_none (hd : Unbound d) : (loadKeybinds none d).modified = [] := by
  rw [loadKeybinds_eq, modified_shipAll]
  exact hd.modified

theorem apart_loadKeybinds (hs : d.Sound) (hd : Unbound d) :
    Apart (registrations d.known shippedFile.entries) (loadKeybinds none d) (loadKeybinds none d) := by
  refine ⟨tracked_loadKeybinds hs hd none, ?_, rfl⟩
  rw [modified_loadKeybinds_none hd]
  exact List.nodup_nil

/-! ### Full resets -/

/-- After a full reset, each function stands where it would, were all bindings of the functions reset registered anew, in
the order in which these are visited. -/
theorem shapes_full_reset (hd : Apart rs loaded d) (hloaded : Tracked rs loaded) (hnone : loaded.modified = [])
    {order : List String} (horder : order.Perm d.modified) :
    (d.resetFunctions order).shapes = sorted Binding.precedes
      (loaded.shapes.filter (·.function ∉ order) ++ order.flatMap fun f => loaded.shapes.filter (·.function = f)) := by
  have hrest : d.shapes.filter (·.function ∉ order) = loaded.shapes.filter (·.function ∉ order) := by
    have hmem : ∀ f, f ∈ order ↔ f ∈ d.modified := fun f => horder.mem_iff
    simpa only [hmem] using hd.rest
  have hof : ∀ f, loaded.shapes.filter (·.function = f) = sorted Binding.precedes (shapesOf f rs) := by
    intro f
    rw [Dispatcher.filter_shapes (· = f)]
    exact hloaded.untouched f (by simp [hnone])
  have hfront : Ordered.InOrder Binding.precedes (loaded.shapes.filter (·.function ∉ order)) :=
    (Dispatcher.inOrder_shapes hloaded.inOrder).sublist List.filter_sublist
  calc (d.resetFunctions order).shapes
    _ = insertAll Binding.precedes (order.flatMap fun f => shapesOf f rs)
          (loaded.shapes.filter (·.function ∉ order)) := by
        rw [Dispatcher.shapes_resetFunctions hd.sound hd.inOrder (horder.nodup_iff.mpr hd.nodup), hd.shipped, hrest]
    _ = insertAll Binding.precedes (order.flatMap fun f => loaded.shapes.filter (·.function = f))
          (loaded.shapes.filter (·.function ∉ order)) := by
        rw [funext hof, Ordered.insertAll_flatMap_sorted Binding.ranks_precedes _ _ hfront]
    _ = sorted Binding.precedes
          (loaded.shapes.filter (·.function ∉ order) ++ order.flatMap fun f => loaded.shapes.filter (·.function = f)) := by
        nth_rewrite 1 [← Ordered.sorted_eq_self hfront]
        exact (Ordered.insertAll_append ..).symm

theorem registrations_full_reset (hd : Apart rs loaded d) (hloaded : Tracked rs loaded) (hnone : loaded.modified = [])
    {order : List String} (horder : order.Perm d.modified) :
    (d.resetFunctions order).table.bindings.map Binding.toRegistration = Registration.ranked
      ((loaded.table.bindings.map Binding.toRegistration).filter (·.function ∉ order) ++
        order.flatMap fun f => (loaded.table.bindings.map Binding.toRegistration).filter (·.function = f)) := by
  have hof : ∀ p : String → Bool, (loaded.shapes.filter fun b => p b.function).map Binding.toRegistration
      = (loaded.table.bindings.map Binding.toRegistration).filter fun r => p r.function :=
    fun p => Dispatcher.map_toRegistration_filter_shapes p loaded
  have hpacked : ∀ b ∈ loaded.shapes, b.combo.Packed := by
    intro b hb
    obtain ⟨c, hc, rfl⟩ := List.mem_map.mp hb
    exact hloaded.sound.packed c hc
  have hall : ∀ b ∈ loaded.shapes.filter (·.function ∉ order) ++
      order.flatMap (fun f => loaded.shapes.filter (·.function = f)), b.combo.Packed := by
    intro b hb
    rcases List.mem_append.mp hb with hb | hb
    · exact hpacked b (List.mem_of_mem_filter hb)
    · obtain ⟨f, -, hb⟩ := List.mem_flatMap.mp hb
      exact hpacked b (List.mem_of_mem_filter hb)
  calc (d.resetFunctions order).table.bindings.map Binding.toRegistration
    _ = (d.resetFunctions order).shapes.map Binding.toRegistration := by
        rw [Dispatcher.shapes, List.map_map]
        rfl
    _ = Registration.ranked
          ((loaded.shapes.filter (·.function ∉ order)).map Binding.toRegistration ++
            order.flatMap fun f => (loaded.shapes.filter (·.function = f)).map Binding.toRegistration) := by
        rw [shapes_full_reset hd hloaded hnone horder, Binding.map_toRegistration_sorted hall, List.map_append,
          List.map_flatMap]
    _ = Registration.ranked
          ((loaded.table.bindings.map Binding.toRegistration).filter (·.function ∉ order) ++
            order.flatMap fun f => (loaded.table.bindings.map Binding.toRegistration).filter (·.function = f)) := by
        rw [hof (· ∉ order), funext fun f => hof (· = f)]

theorem modified_full_reset (hs : d.Sound) {order : List String} (horder : order.Perm d.modified) :
    (d.resetFunctions order).modified = [] := by
  rw [Dispatcher.modified_resetFunctions hs, List.filter_eq_nil_iff]
  intro f hf
  simpa using horder.mem_iff.mpr hf

theorem registrationsFor_full_reset (hd : Tracked rs d) (hloaded : Tracked rs loaded) (hnone : loaded.modified = [])
    {order : List String} (horder : order.Perm d.modified) (f : String) :
    ((d.resetFunctions order).table.bindingsFor f).map Binding.toRegistration
      = (loaded.table.bindings.map Binding.toRegistration).filter (·.function = f) := by
  have hafter := (hd.resetFunctions order).untouched f (by simp [modified_full_reset hd.sound horder])
  rw [Table.registrations_of_shapesFor (hafter.trans (hloaded.untouched f (by simp [hnone])).symm), List.filter_map]
  rfl

/-- After a full reset no function counts as modified, and each has the registrations it was loaded with, in their order.
Those of the functions that have been modified stand, function by function as these are visited, behind those of the
others, and all are stably sorted again by descending combination and priority. -/
theorem full_reset_puts_modified_functions_behind {ops : List Operation} (hops : ∀ op ∈ ops, op.isEdit)
    {order : List String}
    (horder : order.Perm (Operation.run ops (loadKeybinds none engineDispatcher)).modified) :
    let loaded := loadKeybinds none engineDispatcher
    let d := (Operation.resetAll order).apply (Operation.run ops loaded)
    let registrations := loaded.table.bindings.map Binding.toRegistration
    d.modified = [] ∧
    d.table.bindings.map Binding.toRegistration = Registration.ranked
      (registrations.filter (·.function ∉ order) ++ order.flatMap fun f => registrations.filter (·.function = f)) ∧
    ∀ f, (d.table.bindingsFor f).map Binding.toRegistration = registrations.filter (·.function = f) := by
  have hloaded := apart_loadKeybinds sound_engineDispatcher unbound_engineDispatcher
  have hnone := modified_loadKeybinds_none unbound_engineDispatcher
  -- from here on it does not matter what has been loaded
  generalize loadKeybinds none engineDispatcher = loaded at horder hloaded hnone ⊢
  intro loaded d registrations
  have hrun := apart_run hloaded hops
  have hd : d = (Operation.run ops loaded).resetFunctions order := if_pos (List.isPerm_iff.mpr horder)
  rw [hd]
  exact ⟨modified_full_reset hrun.sound horder, registrations_full_reset hrun hloaded.toTracked hnone horder,
    registrationsFor_full_reset hrun.toTracked hloaded.toTracked hnone horder⟩

/-- The user gives a function a second key. -/
def secondClick : List Operation := [.register { function := "UIClick", base := .f9 }]

theorem full_reset_puts_modified_functions_behind_secondClick :
    (∀ op ∈ secondClick, op.isEdit) ∧
      ["UIClick"].Perm (Operation.run secondClick (loadKeybinds none engineDispatcher)).modified ∧
      ((Operation.resetAll ["UIClick"]).apply
        (Operation.run secondClick (loadKeybinds none engineDispatcher))).modified = [] := by
  have hops : ∀ op ∈ secondClick, op.isEdit := by decide
  have hmodified : (Operation.run secondClick (loadKeybinds none engineDispatcher)).modified = ["UIClick"] := by
    decide +kernel
  have horder := List.Perm.of_eq hmodified.symm
  exact ⟨hops, horder, (full_reset_puts_modified_functions_behind hops horder).1⟩

/-- Four functions share the left button.  The one that has been modified comes first when it has been loaded, and last
after the reset. -/
theorem full_reset_changes_the_order :
    let loaded := loadKeybinds none engineDispatcher
    let d := (Operation.resetAll ["UIClick"]).apply (Operation.run secondClick loaded)
    (loaded.table.bindings.filter (·.combo.text = "MouseLeft")).map (·.function)
        = ["UIClick", "Use", "EditorPlaceObject", "TextCursorSelect"] ∧
      (d.table.bindings.filter (·.combo.text = "MouseLeft")).map (·.function)
        = ["Use", "EditorPlaceObject", "TextCursorSelect", "UIClick"] ∧
      (Operation.run secondClick loaded).modified = ["UIClick"] ∧
      d.table.bindings.map Binding.toRegistration ≠ loaded.table.bindings.map Binding.toRegistration := by
  decide +kernel

end KeyConsole.Keybinds
