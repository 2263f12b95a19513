import KeyConsole.Proofs.Keybinds.EditingHistory
import KeyConsole.Proofs.Keybinds.WrittenFile
import KeyConsole.Proofs.Keyboard.KeyNames
import Mathlib

/-!
# Proofs.Keybinds.SavedKeybinds: what the user has changed loads back

A function that does not count as modified has the shipped bindings.  So the modified functions with their
bindings say all, and a file of them brings every binding back.
-/

namespace KeyConsole.Keybinds

open Dispatch
open Ordered (sortedNames)

variable {d d' : Dispatcher} {function : String}

/-! ### Entries -/

theorem Entry.keyNamed_name (e : Entry) {k : Keyboard.Key} (h : k ≠ .unknown) : e.keyNamed k.name = .ok k := by
  rw [keyNamed, Keyboard.Key.ofName?_name h]

theorem Entry.modifierNamed_name (e : Entry) (k : Keyboard.Key) : e.modifierNamed (modifierName k) = .ok k := by
  unfold modifierName
  split
  · rename_i h
    rw [h]
    rfl
  · rename_i h
    rw [modifierNamed, e.keyNamed_name h]

/-- The entry for a registration stands for this registration. -/
theorem Entry.toRegistration_ofRegistration {r : Registration} (h : r.base ≠ .unknown) :
    (ofRegistration r).toRegistration = .ok r := by
  unfold toRegistration
  simp only [ofRegistration, keyNamed_name _ h, modifierNamed_name]
  rfl

theorem accepted_ofRegistration {known : List String} {b : Binding} (hpacked : b.combo.Packed)
    (hknown : b.kind ≠ .command → b.function ∈ known) :
    accepted known (.ofRegistration b.toRegistration) = some b.toRegistration := by
  have hpass : ¬((Entry.ofRegistration b.toRegistration).kind ≠ .command
      && !known.contains (Entry.ofRegistration b.toRegistration).function) = true := by
    by_cases hkind : b.kind = .command
    · simp [Entry.ofRegistration, Binding.toRegistration, hkind]
    · simp [Entry.ofRegistration, Binding.toRegistration, hknown hkind]
  rw [accepted, if_neg hpass, Entry.toRegistration_ofRegistration hpacked.base_ne]
  rfl

theorem flatMap_ite_eq {α : Type} {names : List String} (hnames : names.Nodup) (function : String) (xs : List α) :
    names.flatMap (fun f => if function = f then xs else []) = if function ∈ names then xs else [] := by
  induction names with
  | nil => rfl
  | cons f fs ih =>
    obtain ⟨hf, hfs⟩ := List.nodup_cons.mp hnames
    rw [List.flatMap_cons, ih hfs]
    by_cases hfunction : function = f
    · subst hfunction
      simp [hf]
    · simp [hfunction]

/-! ### The file of what is modified -/

/-- The bindings of modified functions are commands, or bound to known functions. -/
def Savable (known : List String) (d : Dispatcher) : Prop :=
  ∀ b ∈ d.table.bindings, d.isModified b.function → b.kind ≠ .command → b.function ∈ known

theorem registrations_userFile (hd : d.Sound) {known : List String} (hknown : Savable known d) :
    registrations known (userFile d).entries = (sortedNames d.modified).flatMap fun f =>
      (d.table.bindingsFor f).map Binding.toRegistration := by
  unfold registrations userFile
  rw [List.filterMap_flatMap]
  refine List.flatMap_congr fun f hf => ?_
  have hmodified : d.isModified f := by
    simpa [Dispatcher.isModified] using Ordered.mem_sortedNames.mp hf
  rw [List.filterMap_map, ← List.filterMap_eq_map]
  refine List.filterMap_congr fun b hb => ?_
  obtain ⟨hmem, hfunction⟩ := List.mem_filter.mp hb
  obtain rfl : b.function = f := by simpa using hfunction
  exact accepted_ofRegistration (hd.packed b hmem) (hknown b hmem hmodified)

/-- The file has the bindings of a modified function in their order. -/
theorem shapesOf_userFile (hd : d.Sound) {known : List String} (hknown : Savable known d) (function : String) :
    shapesOf function (registrations known (userFile d).entries)
      = if function ∈ d.modified then d.table.shapesFor function else [] := by
  have hone : ∀ f, (((d.table.bindingsFor f).map Binding.toRegistration).filter
      (·.function = function)).filterMap Binding.shape? = if function = f then d.table.shapesFor function else [] := by
    intro f
    have hfunctions : ∀ b ∈ d.table.bindingsFor f, b.toRegistration.function = f := by
      intro b hb
      exact of_decide_eq_true (List.mem_filter.mp hb).2
    split
    · rename_i hf
      subst hf
      have hall : ((d.table.bindingsFor function).map Binding.toRegistration).filter (·.function = function)
          = (d.table.bindingsFor function).map Binding.toRegistration := by
        rw [List.filter_eq_self]
        intro r hr
        obtain ⟨b, hb, rfl⟩ := List.mem_map.mp hr
        simpa using hfunctions b hb
      rw [hall, List.filterMap_map, Table.shapesFor, ← List.filterMap_eq_map]
      refine List.filterMap_congr fun b hb => ?_
      exact Binding.shape?_toRegistration (hd.packed b (List.mem_filter.mp hb).1)
    · rename_i hf
      have hnone : ((d.table.bindingsFor f).map Binding.toRegistration).filter (·.function = function) = [] := by
        rw [List.filter_eq_nil_iff]
        intro r hr
        obtain ⟨b, hb, rfl⟩ := List.mem_map.mp hr
        rw [hfunctions b hb]
        simpa using Ne.symm hf
      rw [hnone]
      rfl
  rw [registrations_userFile hd hknown, shapesOf, List.filter_flatMap, List.filterMap_flatMap]
  refine (List.flatMap_congr fun f _ => hone f).trans ?_
  rw [flatMap_ite_eq (Ordered.nodup_sortedNames _)]
  simp only [Ordered.mem_sortedNames]

theorem mem_leaveEmpty_userFile :
    function ∈ (userFile d).leaveEmpty ↔ function ∈ d.modified ∧ d.table.shapesFor function = [] := by
  unfold userFile Table.shapesFor
  rw [List.mem_filter, Ordered.mem_sortedNames, List.map_eq_nil_iff, List.isEmpty_iff]

/-- What the user has changed, loaded into a dispatcher that has not been used, brings back every binding. -/
theorem reload {fresh : Dispatcher} (hfresh : Unbound fresh)
    (hd : Tracked (registrations fresh.known shippedFile.entries) d) (hknown : Savable fresh.known d) :
    (∀ f, f ∈ (loadKeybinds (some (userFile d)) fresh).modified ↔ f ∈ d.modified) ∧
      ∀ f, (loadKeybinds (some (userFile d)) fresh).table.shapesFor f = d.table.shapesFor f := by
  have hmodified : ∀ f, f ∈ (loadKeybinds (some (userFile d)) fresh).modified ↔ f ∈ d.modified := by
    intro f
    rw [mem_modified_loadKeybinds, Option.elim_some, Option.elim_some, shapesOf_userFile hd.sound hknown,
      mem_leaveEmpty_userFile, hfresh.modified]
    by_cases hf : f ∈ d.modified
    · simp only [hf, if_true, true_and, iff_true]
      exact .inr (ne_or_eq _ _)
    · simp [hf]
  refine ⟨hmodified, fun f => ?_⟩
  have hshapes := shapesFor_loadKeybinds hfresh (some (userFile d)) f
  rw [hshapes]
  split
  · rename_i hf
    have hf' : f ∈ d.modified := (hmodified f).mp (by simpa [Dispatcher.isModified] using hf)
    rw [Option.elim_some, shapesOf_userFile hd.sound hknown, if_pos hf']
    exact Ordered.sorted_eq_self (Table.inOrder_shapesFor hd.inOrder f)
  · rename_i hf
    refine (hd.untouched f fun hf' => hf ?_).symm
    simpa [Dispatcher.isModified] using (hmodified f).mpr hf'

/-- Which functions are modified and what is bound to them decides on the file. -/
theorem userFile_congr (hmodified : ∀ f, f ∈ d'.modified ↔ f ∈ d.modified)
    (hshapes : ∀ f, d'.table.shapesFor f = d.table.shapesFor f) : userFile d' = userFile d := by
  have hempty : ∀ f, (d'.table.bindingsFor f).isEmpty = (d.table.bindingsFor f).isEmpty := by
    intro f
    have hempty := congrArg List.isEmpty (hshapes f)
    rwa [Table.shapesFor, Table.shapesFor, List.isEmpty_map, List.isEmpty_map] at hempty
  have hentries : ∀ f, (d'.table.bindingsFor f).map (fun b => Entry.ofRegistration b.toRegistration)
      = (d.table.bindingsFor f).map fun b => Entry.ofRegistration b.toRegistration := by
    intro f
    have hregistrations := congrArg (List.map Entry.ofRegistration)
      (Table.registrations_of_shapesFor (hshapes f))
    rwa [List.map_map, List.map_map] at hregistrations
  unfold userFile
  rw [Ordered.sortedNames_congr hmodified, funext hentries]
  simp only [hempty]

theorem priorities_userFile (hpriority : ∀ b ∈ d.table.bindings, -2 ^ 31 ≤ b.priority ∧ b.priority < 2 ^ 31) :
    ∀ e ∈ (userFile d).entries, -Int.pow 2 31 ≤ e.priority ∧ e.priority < Int.pow 2 31 := by
  intro e he
  obtain ⟨f, -, he⟩ := List.mem_flatMap.mp he
  obtain ⟨b, hb, rfl⟩ := List.mem_map.mp he
  exact hpriority b (List.mem_filter.mp hb).1

/-- What the user has changed, saved as text and loaded at the next start, brings back which functions are
modified and all that is bound, in order.  Priorities are integers of 32 bits.  The text is written and read in any
way in which the tree of the file comes back. -/
theorem saved_keybinds_load_back {parse : String → Option Yaml.Document} {write : Yaml.Tree → String}
    {user : Option KeybindFile} {ops : List Operation}
    (hops : ∀ op ∈ ops, ¬op.loads) (hd : d = Operation.run ops (loadKeybinds user engineDispatcher))
    (hknown : ∀ b ∈ d.table.bindings, d.isModified b.function → b.kind ≠ .command →
      b.function ∈ engineFunctions)
    (hpriority : ∀ b ∈ d.table.bindings, -2 ^ 31 ≤ b.priority ∧ b.priority < 2 ^ 31)
    (htext : Yaml.RoundTrips parse write (userFile d).tree) :
    ∃ file, KeybindFile.readBy parse (write (userFile d).tree) = .ok file ∧
      (∀ f, (loadKeybinds (some file) engineDispatcher).isModified f = d.isModified f) ∧
      (∀ f, ((loadKeybinds (some file) engineDispatcher).table.bindingsFor f).map Binding.toRegistration
        = (d.table.bindingsFor f).map Binding.toRegistration) ∧
      userFile (loadKeybinds (some file) engineDispatcher) = userFile d := by
  have htracked : Tracked (registrations engineDispatcher.known shippedFile.entries) d := by
    rw [hd]
    exact tracked_run (tracked_loadKeybinds sound_engineDispatcher unbound_engineDispatcher user) hops
  have hsavable : Savable engineDispatcher.known d := fun b hb hmodified hkind =>
    List.mem_eraseDups.mpr (hknown b hb hmodified hkind)
  obtain ⟨hmodified, hshapes⟩ := reload unbound_engineDispatcher htracked hsavable
  refine ⟨userFile d, KeybindFile.readBy_written rfl (priorities_userFile hpriority) htext, ?_, ?_, ?_⟩
  · intro f
    unfold Dispatcher.isModified
    rw [Bool.eq_iff_iff, List.contains_iff_mem, List.contains_iff_mem, hmodified]
  · exact fun f => Table.registrations_of_shapesFor (hshapes f)
  · exact userFile_congr hmodified hshapes

/-- Walking gets a second binding, `Use` loses its only one, and a command is bound. -/
def editedKeybinds : List Operation := [
  .register { function := "Walk", kind := .toggle, base := .keyE, mod1 := .shift, priority := -3 },
  .remove 6, .register { function := "say hi", kind := .command, base := .f1, canFocus := true },
  .keyDown { key := .f1 }]

/-- They come back by the reader and the writer of `Yaml`. -/
theorem edited_keybinds_load_back :
    ∃ d file, d = Operation.run editedKeybinds (loadKeybinds none engineDispatcher) ∧
      d.modified = ["Walk", "Use", "say hi"] ∧ KeybindFile.read (userFile d).written = .ok file ∧
        userFile (loadKeybinds (some file) engineDispatcher) = userFile d := by
  have hops : ∀ op ∈ editedKeybinds, ¬op.loads := by decide
  have hcheck : (Operation.run editedKeybinds (loadKeybinds none engineDispatcher)).modified
        = ["Walk", "Use", "say hi"] ∧
      (∀ b ∈ (Operation.run editedKeybinds (loadKeybinds none engineDispatcher)).table.bindings,
        (Operation.run editedKeybinds (loadKeybinds none engineDispatcher)).isModified b.function →
          b.kind ≠ .command → b.function ∈ engineFunctions) ∧
      (∀ b ∈ (Operation.run editedKeybinds (loadKeybinds none engineDispatcher)).table.bindings,
        -2 ^ 31 ≤ b.priority ∧ b.priority < 2 ^ 31) ∧
      ((Yaml.Document.read?
        (userFile (Operation.run editedKeybinds (loadKeybinds none engineDispatcher))).written).any fun text =>
          text.anchored.isEmpty && text.root.same
            (userFile (Operation.run editedKeybinds (loadKeybinds none engineDispatcher))).tree.node) := by
    decide +kernel
  generalize hd : Operation.run editedKeybinds (loadKeybinds none engineDispatcher) = d at hcheck
  obtain ⟨hmodified, hknown, hpriority, htext⟩ := hcheck
  obtain ⟨file, hread, -, -, hfile⟩ := saved_keybinds_load_back hops hd.symm hknown hpriority
    (Yaml.Document.eq_some_of_same htext)
  exact ⟨d, file, rfl, hmodified, hread, hfile⟩

end KeyConsole.Keybinds
