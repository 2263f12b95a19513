import KeyConsole.Keybinds.Loading
import KeyConsole.Proofs.Dispatch.Listing
import KeyConsole.Proofs.Keybinds.ReadableEntries

/-!
# Proofs.Keybinds.Layering: the user's keybinds in front of the shipped ones

Loading keeps the entries that it accepts.  Those of the user's file are registered and make their functions
modified; of the shipped ones, those of other functions are registered, and all are remembered.
-/

namespace KeyConsole.Keybinds

open Dispatch
open Ordered (insertAll sorted)
open Dispatcher (Edited)

variable {d : Dispatcher} {e : Entry} {r : Registration} {function : String}

/-! ### Files as edits -/

theorem edited_loadEntry (byUser : Bool) (d : Dispatcher) (e : Entry) : Edited d (loadEntry byUser d e).2 := by
  unfold loadEntry
  split
  · exact .refl
  · split
    · exact .refl
    · rename_i r _
      have hshipped : Edited d (if byUser then d else { d with shipped := d.shipped ++ [r] }) := by
        split
        · exact .refl
        · exact .putDown d d.modified _
      simp only
      generalize (if byUser then d else { d with shipped := d.shipped ++ [r] }) = d' at hshipped ⊢
      have hinsert := Edited.insertBinding r byUser d'
      split
      · exact hshipped
      · cases h : d'.insertBinding r byUser with
        | none => exact hshipped
        | some p =>
          rw [h] at hinsert
          exact hshipped.trans hinsert

theorem snd_loadEntries (byUser : Bool) (entries : List Entry) (d : Dispatcher) :
    (loadEntries byUser entries d).2 = entries.foldl (fun d e => (loadEntry byUser d e).2) d := by
  suffices ∀ n, (entries.foldl (fun p e =>
      (if (loadEntry byUser p.2 e).1 then p.1 + 1 else p.1, (loadEntry byUser p.2 e).2)) (n, d)).2
        = entries.foldl (fun d e => (loadEntry byUser d e).2) d from this 0
  induction entries generalizing d with
  | nil => exact fun _ => rfl
  | cons e es ih => exact fun n => ih _ _

theorem edited_loadEntries (byUser : Bool) (entries : List Entry) (d : Dispatcher) :
    Edited d (loadEntries byUser entries d).2 := by
  rw [snd_loadEntries]
  induction entries generalizing d with
  | nil => exact .refl
  | cons e es ih => exact (edited_loadEntry byUser d e).trans (ih _)

theorem edited_loadFile (file : KeybindFile) (byUser : Bool) (d : Dispatcher) :
    Edited d (loadFile file byUser d).2 := by
  unfold loadFile
  refine (edited_loadEntries byUser file.entries d).trans ?_
  simp only
  split
  · exact Edited.putDown _ _ _
  · exact .refl

theorem edited_loadKeybinds (user : Option KeybindFile) (d : Dispatcher) :
    Edited d (loadKeybinds user d) := by
  unfold loadKeybinds
  cases user with
  | none => exact edited_loadFile _ _ _
  | some file => exact (edited_loadFile file true d).trans (edited_loadFile _ _ _)

/-! ### Accepted entries -/

/-- The registration of an entry that loading accepts: its function is known or it is a command, and its names
are names of keys. -/
def accepted (known : List String) (e : Entry) : Option Registration :=
  if e.kind ≠ .command && !known.contains e.function then none else e.toRegistration.toOption

/-- The registrations of the accepted entries. -/
def registrations (known : List String) (entries : List Entry) : List Registration :=
  entries.filterMap (accepted known)

theorem registrations_cons (known : List String) (e : Entry) (es : List Entry) :
    registrations known (e :: es) = (accepted known e).toList ++ registrations known es := by
  unfold registrations
  rw [List.filterMap_cons]
  cases accepted known e <;> rfl

/-- The entry is of use: it is a command or its function is known, and its names are names of keys. -/
def Entry.isValid (known : List String) (e : Entry) : Bool :=
  (decide (e.kind = .command) || known.contains e.function) && e.isReadable

theorem accepted_eq (known : List String) (e : Entry) :
    accepted known e = if e.isValid known then some e.registration else none := by
  unfold accepted Entry.isValid
  rw [e.toOption_toRegistration]
  by_cases hkind : e.kind = .command <;> by_cases hknown : e.function ∈ known <;> simp [hkind, hknown]

/-- Just the valid entries are accepted, as what they say. -/
theorem registrations_eq (known : List String) (entries : List Entry) :
    registrations known entries = (entries.filter (·.isValid known)).map Entry.registration := by
  induction entries with
  | nil => rfl
  | cons e es ih =>
    rw [registrations_cons, ih, accepted_eq, List.filter_cons]
    split <;> rfl

theorem base_ne_of_mem_registrations {known : List String} {entries : List Entry}
    (hr : r ∈ registrations known entries) : r.base ≠ .unknown := by
  rw [registrations_eq, List.mem_map] at hr
  obtain ⟨e, he, rfl⟩ := hr
  have hvalid := (List.mem_filter.mp he).2
  simp only [Entry.isValid, Bool.and_eq_true] at hvalid
  exact e.base_registration hvalid.2

/-! ### The user's file -/

theorem loadEntry_user (d : Dispatcher) (e : Entry) :
    (loadEntry true d e).2 = (accepted d.known e).elim d fun r => (d.insertBinding r true).elim d (·.2) := by
  unfold loadEntry accepted Dispatcher.knows
  by_cases hknown : (e.kind ≠ .command && !d.known.contains e.function) = true
  · rw [if_pos hknown, if_pos hknown]
    rfl
  · rw [if_neg hknown, if_neg hknown]
    cases he : e.toRegistration with
    | error fault => rfl
    | ok r => cases h : d.insertBinding r true <;> simp [Except.toOption, h]

theorem known_edited {d' : Dispatcher} (h : Edited d d') : d'.known = d.known := by
  induction h with
  | refl => rfl
  | tail _ h ih => cases h <;> exact ih

theorem loadEntries_user (entries : List Entry) (d : Dispatcher) :
    (loadEntries true entries d).2 = d.insertAll true (registrations d.known entries) := by
  rw [snd_loadEntries]
  induction entries generalizing d with
  | nil => rfl
  | cons e es ih =>
    rw [List.foldl_cons, ih, known_edited (edited_loadEntry true d e), loadEntry_user,
      registrations_cons]
    cases accepted d.known e with
    | none => rfl
    | some r => rfl

/-! ### The shipped file -/

/-- A shipped registration is remembered, and inserted if the user has not changed its function. -/
def ship (r : Registration) (d : Dispatcher) : Dispatcher :=
  let d := { d with shipped := d.shipped ++ [r] }
  if d.isModified r.function then d else (d.insertBinding r false).elim d (·.2)

/-- Some registrations are shipped, one after the other. -/
def shipAll (rs : List Registration) (d : Dispatcher) : Dispatcher := rs.foldl (fun d r => ship r d) d

theorem loadEntry_shipped (d : Dispatcher) (e : Entry) :
    (loadEntry false d e).2 = (accepted d.known e).elim d fun r => ship r d := by
  unfold loadEntry accepted Dispatcher.knows
  by_cases hknown : (e.kind ≠ .command && !d.known.contains e.function) = true
  · rw [if_pos hknown, if_pos hknown]
    rfl
  · rw [if_neg hknown, if_neg hknown]
    cases he : e.toRegistration with
    | error fault => rfl
    | ok r =>
      simp only [Except.toOption, Option.elim_some, ship, Bool.not_false, Bool.true_and, Bool.false_eq_true,
        if_false]
      split
      · rfl
      · cases h : ({ d with shipped := d.shipped ++ [r] } : Dispatcher).insertBinding r false <;> rfl

theorem loadEntries_shipped (entries : List Entry) (d : Dispatcher) :
    (loadEntries false entries d).2 = shipAll (registrations d.known entries) d := by
  rw [snd_loadEntries]
  induction entries generalizing d with
  | nil => rfl
  | cons e es ih =>
    rw [List.foldl_cons, ih, known_edited (edited_loadEntry false d e), loadEntry_shipped,
      registrations_cons]
    cases accepted d.known e with
    | none => rfl
    | some r => rfl

theorem modified_ship (r : Registration) (d : Dispatcher) : (ship r d).modified = d.modified := by
  unfold ship
  simp only
  split
  · rfl
  · exact Dispatcher.modified_insertBinding r _

theorem shipped_ship (r : Registration) (d : Dispatcher) : (ship r d).shipped = d.shipped ++ [r] := by
  unfold ship
  simp only
  split
  · rfl
  · rw [Dispatcher.insertBinding_rest]

theorem edited_ship (r : Registration) (d : Dispatcher) : Edited d (ship r d) := by
  have hshipped := Edited.putDown d d.modified (d.shipped ++ [r])
  unfold ship
  simp only
  split
  · exact hshipped
  · exact hshipped.trans (Edited.insertBinding r false _)

theorem shapesFor_ship (hd : d.table.Sorted) (r : Registration) (function : String) :
    (ship r d).table.shapesFor function = if d.isModified function then d.table.shapesFor function
      else insertAll Binding.precedes (shapesOf function [r]) (d.table.shapesFor function) := by
  have hother : r.function ≠ function → shapesOf function [r] = [] := by
    intro hf
    simp [shapesOf, hf]
  unfold ship
  simp only
  split
  · rename_i hmodified
    split
    · rfl
    · rename_i hfunction
      have hne : r.function ≠ function := by
        rintro rfl
        exact hfunction hmodified
      rw [hother hne]
      rfl
  · rename_i hmodified
    refine (Dispatcher.shapesFor_insertBinding (d := { d with shipped := d.shipped ++ [r] }) hd r false
      function).trans ?_
    split
    · rename_i hfunction
      have hne : r.function ≠ function := by
        rintro rfl
        exact hmodified hfunction
      rw [hother hne]
      rfl
    · rfl

theorem shipAll_cons (r : Registration) (rs : List Registration) (d : Dispatcher) :
    shipAll (r :: rs) d = shipAll rs (ship r d) := rfl

theorem modified_shipAll (rs : List Registration) (d : Dispatcher) : (shipAll rs d).modified = d.modified := by
  induction rs generalizing d with
  | nil => rfl
  | cons r rs ih => rw [shipAll_cons, ih, modified_ship]

theorem subset_shipAll (rs : List Registration) (d : Dispatcher) :
    d.table.bindings ⊆ (shipAll rs d).table.bindings := by
  have hship : ∀ r (d : Dispatcher), d.table.bindings ⊆ (ship r d).table.bindings := by
    intro r d
    unfold ship
    simp only
    split
    · exact List.Subset.refl _
    · exact Dispatcher.subset_insertBinding r false { d with shipped := d.shipped ++ [r] }
  induction rs generalizing d with
  | nil => exact List.Subset.refl _
  | cons r rs ih => exact List.Subset.trans (hship r d) (ih _)

theorem shipped_shipAll (rs : List Registration) (d : Dispatcher) : (shipAll rs d).shipped = d.shipped ++ rs := by
  induction rs generalizing d with
  | nil => simp [shipAll]
  | cons r rs ih => rw [shipAll_cons, ih, shipped_ship, List.append_assoc, List.singleton_append]

/-- Shipped registrations reach the functions that the user has not changed. -/
theorem shapesFor_shipAll (hd : d.table.Sorted) (rs : List Registration) (function : String) :
    (shipAll rs d).table.shapesFor function = if d.isModified function then d.table.shapesFor function
      else insertAll Binding.precedes (shapesOf function rs) (d.table.shapesFor function) := by
  induction rs generalizing d with
  | nil => by_cases h : d.isModified function <;> simp [shipAll, h, shapesOf, insertAll]
  | cons r rs ih =>
    have hstep := shapesFor_ship hd r function
    have hmodified : (ship r d).isModified function = d.isModified function := by
      unfold Dispatcher.isModified
      rw [modified_ship]
    rw [shipAll_cons, ih (Dispatcher.sorted_edited (edited_ship r d) hd), hmodified]
    split
    · rename_i h
      rw [hstep, if_pos h]
    · rename_i h
      have hsplit := shapesOf_cons function r rs
      rw [hstep, if_neg h, hsplit, Ordered.insertAll_append]

/-! ### Both files -/

/-- The dispatcher with the user's keybinds, if there are any. -/
def userLoaded (user : Option KeybindFile) (d : Dispatcher) : Dispatcher :=
  let d' := d.insertAll true (registrations d.known (user.elim [] (·.entries)))
  { d' with modified := (user.elim [] (·.leaveEmpty)).foldl withName d'.modified }

theorem userLoaded_eq (user : Option KeybindFile) (d : Dispatcher) :
    user.elim d (fun file => (loadFile file true d).2) = userLoaded user d := by
  cases user with
  | none => rfl
  | some file =>
    simp only [Option.elim_some, loadFile, if_true]
    rw [loadEntries_user]
    rfl

theorem edited_userLoaded (user : Option KeybindFile) (d : Dispatcher) : Edited d (userLoaded user d) :=
  (Edited.insertAll _ d).trans (Edited.putDown _ _ _)

theorem loadKeybinds_eq (user : Option KeybindFile) (d : Dispatcher) :
    loadKeybinds user d = shipAll (registrations d.known shippedFile.entries) (userLoaded user d) := by
  unfold loadKeybinds
  rw [userLoaded_eq, ← known_edited (edited_userLoaded user d)]
  generalize userLoaded user d = d'
  generalize shippedFile = file
  exact loadEntries_shipped file.entries d'

/-! ### What stays -/

theorem subset_userLoaded (user : Option KeybindFile) (d : Dispatcher) :
    d.table.bindings ⊆ (userLoaded user d).table.bindings := Dispatcher.subset_insertAll true _ d

theorem subset_loadFile (file : KeybindFile) (byUser : Bool) (d : Dispatcher) :
    d.table.bindings ⊆ (loadFile file byUser d).2.table.bindings := by
  cases byUser with
  | true =>
    have huser : (loadFile file true d).2 = userLoaded (some file) d := userLoaded_eq (some file) d
    rw [huser]
    exact subset_userLoaded (some file) d
  | false =>
    have hshipped : (loadFile file false d).2 = shipAll (registrations d.known file.entries) d :=
      loadEntries_shipped file.entries d
    rw [hshipped]
    exact subset_shipAll _ d

theorem subset_loadKeybinds (user : Option KeybindFile) (d : Dispatcher) :
    d.table.bindings ⊆ (loadKeybinds user d).table.bindings := by
  rw [loadKeybinds_eq]
  exact List.Subset.trans (subset_userLoaded user d) (subset_shipAll _ _)

/-! ### What is modified and shipped -/

theorem mem_foldl_withName {names more : List String} {n : String} :
    n ∈ more.foldl withName names ↔ n ∈ names ∨ n ∈ more := by
  induction more generalizing names with
  | nil => simp
  | cons m more ih => rw [List.foldl_cons, ih, Dispatcher.mem_withName, List.mem_cons, or_assoc]

/-- The functions of the user's entries and those left empty count as modified, beside those that do so
already. -/
theorem mem_modified_loadKeybinds {user : Option KeybindFile} :
    function ∈ (loadKeybinds user d).modified ↔ function ∈ d.modified ∨
      shapesOf function (registrations d.known (user.elim [] (·.entries))) ≠ [] ∨
        function ∈ user.elim [] (·.leaveEmpty) := by
  rw [loadKeybinds_eq, modified_shipAll]
  refine mem_foldl_withName.trans ?_
  rw [Dispatcher.mem_modified_insertAll, or_assoc]

theorem shipped_loadKeybinds (user : Option KeybindFile) (d : Dispatcher) :
    (loadKeybinds user d).shipped = d.shipped ++ registrations d.known shippedFile.entries := by
  have hstart : (userLoaded user d).shipped = d.shipped := Dispatcher.shipped_insertAll _ _ d
  rw [loadKeybinds_eq, shipped_shipAll, hstart]

/-- A shipped file is remembered, and a user's is not. -/
theorem shipped_loadFile (file : KeybindFile) (byUser : Bool) (d : Dispatcher) :
    (loadFile file byUser d).2.shipped
      = d.shipped ++ if byUser then [] else registrations d.known file.entries := by
  cases byUser with
  | true =>
    have huser : (loadFile file true d).2 = userLoaded (some file) d := userLoaded_eq (some file) d
    rw [huser, if_pos rfl, List.append_nil]
    exact Dispatcher.shipped_insertAll _ _ d
  | false =>
    have hshipped : (loadFile file false d).2 = shipAll (registrations d.known file.entries) d :=
      loadEntries_shipped file.entries d
    rw [hshipped, if_neg Bool.false_ne_true, shipped_shipAll]

/-- A dispatcher without bindings, where nothing has been modified or shipped. -/
structure Unbound (d : Dispatcher) : Prop where
  bindings : d.table.bindings = []
  modified : d.modified = []
  shipped : d.shipped = []

/-- After loading, a modified function has the user's bindings, and any other the shipped ones. -/
theorem shapesFor_loadKeybinds (hd : Unbound d) (user : Option KeybindFile) (function : String) :
    (loadKeybinds user d).table.shapesFor function = sorted Binding.precedes
      (shapesOf function (registrations d.known
        (if (loadKeybinds user d).isModified function then user.elim [] (·.entries)
          else shippedFile.entries))) := by
  have hstart : d.table.Sorted := by
    unfold Table.Sorted
    rw [hd.bindings]
    exact List.Pairwise.nil
  have hnone : d.table.shapesFor function = [] := by
    unfold Table.shapesFor Table.bindingsFor
    rw [hd.bindings]
    rfl
  have hsorted : (userLoaded user d).table.Sorted :=
    Dispatcher.sorted_edited (edited_userLoaded user d) hstart
  have hmodified : (userLoaded user d).isModified function = (loadKeybinds user d).isModified function := by
    unfold Dispatcher.isModified
    rw [loadKeybinds_eq, modified_shipAll]
  have huser : (userLoaded user d).table.shapesFor function = sorted Binding.precedes
      (shapesOf function (registrations d.known (user.elim [] (·.entries)))) := by
    refine (Dispatcher.shapesFor_insertAll hstart true _ function).trans ?_
    rw [hnone]
    rfl
  have hloaded := shapesFor_shipAll hsorted (registrations d.known shippedFile.entries) function
  rw [← loadKeybinds_eq, hmodified, huser] at hloaded
  rw [hloaded]
  split
  · rfl
  · rename_i h
    -- an entry of the user's would have made the function modified
    have hno : shapesOf function (registrations d.known (user.elim [] (·.entries))) = [] := by
      by_contra hsome
      exact h (by simpa [Dispatcher.isModified] using mem_modified_loadKeybinds.mpr (.inr (.inl hsome)))
    rw [hno]
    rfl

theorem unbound_engineDispatcher : Unbound engineDispatcher := ⟨rfl, rfl, rfl⟩

end KeyConsole.Keybinds
