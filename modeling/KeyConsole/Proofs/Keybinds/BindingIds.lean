import KeyConsole.Proofs.Dispatch.Ledger
import KeyConsole.Proofs.Keybinds.Alternation

/-!
# Proofs.Keybinds.BindingIds: an id denotes one binding for good

Registrations, keybind files and resets give out ids in order.  Whatever is done to a dispatcher, its bindings are
accounted for: each of those that ids were given out for is in the table, as it was but for its state, or it has gone
and is never found again.
-/

namespace KeyConsole.Keybinds

open Dispatch
open Dispatcher (Accounted Unedited)

variable {d : Dispatcher} {r : Registration}

/-! ### Runs -/

theorem accounted_start (h : d = {} ∨ d = engineDispatcher) : d.Accounted := by
  rcases h with rfl | rfl
  · exact ⟨rfl, by simp [Dispatcher.issued], .refl _⟩
  · exact ⟨rfl, by simp [Dispatcher.issued, engineDispatcher], .refl _⟩

/-- Edits are put down; whatever else is done brings and takes no binding. -/
theorem accounted_apply (hs : d.Sound) (h : d.Accounted) (op : Operation) : (op.apply d).Accounted := by
  rcases apply_cases d op with hedited | ⟨e, rfl⟩ | ⟨e, rfl⟩ | ⟨name, d', rfl, hswitch, happly⟩ |
    ⟨htable, hnext, hjournal⟩
  · exact h.edited hs hedited
  · have hkeyed := Dispatcher.keyed_keyDown e d
    exact h.alike hkeyed.alike hkeyed.nextId (Dispatcher.unedited_alongChanges.keyDown e d)
  · have hkeyed := Dispatcher.keyed_keyUp e d
    exact h.alike hkeyed.alike hkeyed.nextId (Dispatcher.unedited_alongChanges.keyUp e d)
  · obtain ⟨ns, hdelivered⟩ : Dispatcher.Delivers false d d' := Dispatcher.delivers_setActiveContext hs hswitch
    rw [happly]
    exact h.alike (Dispatcher.alike_setActiveContext hswitch) hdelivered.nextId
      (Dispatcher.unedited_setActiveContext hswitch)
  · have hsame : (op.apply d).journal = d.journal ++ [] := by rw [hjournal, List.append_nil]
    exact h.alike (htable ▸ .refl _) hnext (.of_journal hsame (by simp))

theorem accounted_run (hs : d.Sound) (h : d.Accounted) (ops : List Operation) : (Operation.run ops d).Accounted :=
  (Operation.run_induction (P := fun d => d.Sound ∧ d.Accounted) (Q := fun _ => True)
    (fun _ op _ h => ⟨sound_apply h.1 op, accounted_apply h.1 h.2 op⟩) (fun _ _ => trivial) ⟨hs, h⟩).2

/-- What has been told stays told. -/
theorem journal_run (hs : d.Sound) (ops : List Operation) :
    ∃ ns, (Operation.run ops d).journal = d.journal ++ ns := by
  induction ops generalizing d with
  | nil => exact ⟨[], (List.append_nil _).symm⟩
  | cons op ops ih =>
    obtain ⟨ns, hns⟩ : ∃ ns, (op.apply d).journal = d.journal ++ ns := by
      rcases delivers_or_edited hs op with ⟨ns, hd⟩ | he
      · exact ⟨ns, hd.journal⟩
      · obtain ⟨ns, hns, -⟩ := edited_journal he
        exact ⟨ns, hns⟩
    obtain ⟨ns', hns'⟩ := ih (sound_apply hs op)
    exact ⟨ns ++ ns', by rw [← List.append_assoc, ← hns]; exact hns'⟩

/-! ### Registrations -/

theorem registerBinding_unknown (h : r.base = .unknown) (d : Dispatcher) : d.registerBinding r = none := by
  simp [Dispatcher.registerBinding, Dispatcher.insertBinding, Binding.ofRegistration?, Keyboard.Combo.pack?, h]

/-- A registration with a base key brings a binding made from it, which its id finds. -/
theorem registerBinding_known (hs : d.Sound) (h : r.base ≠ .unknown) :
    ∃ b d', Binding.ofRegistration? d.nextId r = some b ∧ d.registerBinding r = some (d.nextId, d') ∧
      d'.table.get? d.nextId = some b ∧ d'.issued = d.issued ++ [b] := by
  obtain ⟨b, hb⟩ : ∃ b, Binding.ofRegistration? d.nextId r = some b :=
    ⟨_, congrArg (Option.map _) (Keyboard.Combo.pack?_known h)⟩
  obtain ⟨hid, -, -, -⟩ := Dispatcher.ofRegistration?_eq_some hb
  have hs' : (d.withBinding b (withName d.modified r.function)).Sound := hs.edit (.insert r _ hb)
  refine ⟨b, d.withBinding b (withName d.modified r.function), hb, ?_, ?_, Dispatcher.issued_withBinding d b _⟩
  · rw [Dispatcher.registerBinding, Dispatcher.insertBinding, hb, Option.map_some, hid]
    rfl
  · rw [← hid]
    exact hs'.distinct.get?_eq_some ((Table.mem_insert b).mpr (.inl rfl))

/-! ### Ids -/

/-- After any operations the ids of the bindings differ from each other and are below the next one, and ids have been
given out in order, each for one binding made from a registration.  Whatever is done later, an id that finds nothing
any more finds nothing, as does that of a binding that has gone; and an id finds the binding that it was given out
for, in whatever state, until that has gone.  A registration with a base key gets the next id, which finds the binding
made from it; one without is refused and leaves the dispatcher as it is, bindings, next id, modified functions and what
has been told. -/
theorem ids_denote_one_binding_for_good {start : Dispatcher} (hstart : start = {} ∨ start = engineDispatcher)
    (ops later : List Operation) :
    ((Operation.run ops start).table.bindings.map (·.id)).Nodup ∧
    (∀ b ∈ (Operation.run ops start).table.bindings, b.id < (Operation.run ops start).nextId) ∧
    (Operation.run ops start).issued.map (·.id) = List.range (Operation.run ops start).nextId ∧
    (∀ b ∈ (Operation.run ops start).issued, ∃ r, Binding.ofRegistration? b.id r = some b) ∧
    (∀ id < (Operation.run ops start).nextId, (Operation.run ops start).table.get? id = none →
      (Operation.run later (Operation.run ops start)).table.get? id = none) ∧
    (∀ b ∈ (Operation.run ops start).retired,
      (Operation.run later (Operation.run ops start)).table.get? b.id = none) ∧
    (∀ b ∈ (Operation.run ops start).issued,
      (∃ c, (Operation.run later (Operation.run ops start)).table.get? b.id = some c ∧ c.atRest = b) ∨
        (Operation.run later (Operation.run ops start)).table.get? b.id = none ∧
          ∃ c ∈ (Operation.run later (Operation.run ops start)).retired, c.atRest = b) ∧
    (∀ r, r.base ≠ .unknown → ∃ b d', Binding.ofRegistration? (Operation.run ops start).nextId r = some b ∧
      (Operation.run ops start).registerBinding r = some ((Operation.run ops start).nextId, d') ∧
      d'.table.get? (Operation.run ops start).nextId = some b ∧
      d'.issued = (Operation.run ops start).issued ++ [b]) ∧
    ∀ r, r.base = .unknown → (Operation.run ops start).registerBinding r = none ∧
      (Operation.register r).apply (Operation.run ops start) = Operation.run ops start := by
  have hs := sound_run (sound_start hstart) ops
  have haccounted := accounted_run (sound_start hstart) (accounted_start hstart) ops
  have hs' := sound_run hs later
  have haccounted' := accounted_run hs haccounted later
  obtain ⟨ns, hjournal⟩ := journal_run hs later
  refine ⟨hs.distinct, hs.fresh, haccounted.ids, haccounted.made, ?gone, ?retired, ?issued, ?known, ?refused⟩
  case gone => exact fun id hid hnone => haccounted.gone hs haccounted' hjournal hid hnone
  case retired => exact fun b hb => haccounted'.get?_retired (Dispatcher.retired_subset hjournal hb)
  case issued => exact fun b hb => haccounted'.get?_issued hs' (Dispatcher.issued_subset hjournal hb)
  case known => exact fun r hr => registerBinding_known hs hr
  case refused =>
    intro r hr
    have hnone := registerBinding_unknown hr (Operation.run ops start)
    exact ⟨hnone, by rw [Operation.apply, hnone, Option.elim_none]⟩

/-- A shipped binding and one of the user's are reset. -/
def jumpReset : List Operation := [
  .registerFunction "Jump", .applyFile { entries := [{ function := "Jump", key := "Space" }] } false,
  .register { function := "Jump", base := .keyJ, mod1 := .control }, .register { function := "Jump", base := .unknown },
  .reset "Jump"]

/-- One more binding comes, in front of those that are there, and the space bar goes down. -/
def duckAdded : List Operation := [
  .createContext "play" none, .addFunction "play" "Jump", .activate "play",
  .register { function := "Duck", base := .space, mod1 := .control }, .keyDown { key := .space }]

/-- The binding that the reset brings back. -/
def jumpAgain : Binding where
  id := 2
  function := "Jump"
  kind := .state
  combo := ⟨Keyboard.Combo.ofBytes Keyboard.Key.space.code 0 0 0⟩
  canFocus := false
  canRepeat := false
  allowSubCombos := false
  priority := 0

theorem ids_denote_one_binding_for_good_jumpReset :
    (Operation.run jumpReset {}).retired.map (·.id) = [1, 0] ∧
      0 < (Operation.run jumpReset {}).nextId ∧ (Operation.run jumpReset {}).table.get? 0 = none ∧
      (Operation.run duckAdded (Operation.run jumpReset {})).table.get? 0 = none ∧
      (∀ b ∈ (Operation.run jumpReset {}).retired,
        (Operation.run duckAdded (Operation.run jumpReset {})).table.get? b.id = none) ∧
      (Operation.run duckAdded (Operation.run jumpReset {})).table.bindings.map (·.id) = [3, 2] ∧
      jumpAgain ∈ (Operation.run jumpReset {}).issued ∧
      (∃ c, (Operation.run duckAdded (Operation.run jumpReset {})).table.get? 2 = some c ∧ c.isDown ∧
        c.atRest = jumpAgain) ∧
      (Operation.register { function := "Jump", base := .unknown }).apply (Operation.run jumpReset {})
        = Operation.run jumpReset {} := by
  have hold : 0 < (Operation.run jumpReset {}).nextId := by decide +kernel
  have hnone : (Operation.run jumpReset {}).table.get? 0 = none := by decide +kernel
  have hissued : jumpAgain ∈ (Operation.run jumpReset {}).issued := by decide +kernel
  have hfound : (Operation.run duckAdded (Operation.run jumpReset {})).table.get? 2
      = some { jumpAgain with state := .down } := by decide +kernel
  obtain ⟨-, -, -, -, hgone, hretired, hdenotes, -, hrefused⟩ :=
    ids_denote_one_binding_for_good (.inl rfl) jumpReset duckAdded
  refine ⟨by decide +kernel, hold, hnone, hgone 0 hold hnone, hretired, by decide +kernel, hissued, ?_,
    (hrefused _ rfl).2⟩
  rcases hdenotes jumpAgain hissued with ⟨c, hc, hrest⟩ | ⟨hnothing, -⟩
  · obtain rfl := Option.some.inj (hfound.symm.trans hc)
    exact ⟨_, hfound, rfl, hrest⟩
  · exact absurd (hfound.symm.trans hnothing) (by simp)

end KeyConsole.Keybinds
