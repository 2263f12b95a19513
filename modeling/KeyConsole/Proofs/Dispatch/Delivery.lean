import KeyConsole.Dispatch.Dispatcher
import KeyConsole.Proofs.Dispatch.TableStates
import Mathlib.Tactic.SplitIfs

/-!
# Proofs.Dispatch.Delivery: what a change of state touches

A binding that changes its state is turned in the table and noted; then everybody is told.  `Relayed` says that
nothing happened but telling, and `Moved` that nothing happened but changes of state.
-/

namespace KeyConsole.Dispatch

/-- The notice tells somebody of a change, or of an event, and is no change itself. -/
def Notice.isRelay : Notice → Bool
  | .event .. | .shown _ | .focus _ | .passed _ | .handler _ | .listener .. => true
  | .transition .. | .added _ | .removed _ => false

namespace Dispatcher

open Keyboard (Key Combo Event Flags)

/-- Somebody has been told, and the firing orders may have been worked out. -/
structure Relayed (d d' : Dispatcher) : Prop where
  rest : d' = { d with registry := d'.registry, journal := d'.journal }
  binds : d'.registry.binds = d.registry.binds
  told : ∃ ns, d'.journal = d.journal ++ ns ∧ ∀ n ∈ ns, n.isRelay

/-- Bindings have changed their states, and commands may have been queued. -/
structure Moved (d d' : Dispatcher) : Prop where
  rest : d' = { d with
    table := d'.table, registry := d'.registry, queued := d'.queued, journal := d'.journal }
  alike : d.table.Alike d'.table
  binds : d'.registry.binds = d.registry.binds

/-- Bindings have changed their states, and keys and flags may have gone on and off. -/
structure Keyed (d d' : Dispatcher) : Prop where
  rest : d' = { d with
    table := d'.table, registry := d'.registry, queued := d'.queued, journal := d'.journal
    held := d'.held, reported := d'.reported }
  alike : d.table.Alike d'.table
  binds : d'.registry.binds = d.registry.binds

variable {d d' d'' : Dispatcher} {id : Nat} {state : BindingState} {uiOnly : Bool}

namespace Relayed

theorem refl (d : Dispatcher) : Relayed d d := ⟨rfl, rfl, [], by simp, by simp⟩

theorem trans (h : Relayed d d') (h' : Relayed d' d'') : Relayed d d'' := by
  obtain ⟨ns, hns, hrelay⟩ := h.told
  obtain ⟨ns', hns', hrelay'⟩ := h'.told
  refine ⟨?_, h'.binds.trans h.binds, ns ++ ns', by rw [hns', hns, List.append_assoc], ?_⟩
  · calc d'' = { d' with registry := d''.registry, journal := d''.journal } := h'.rest
      _ = { d with registry := d''.registry, journal := d''.journal } := by rw [h.rest]
  · intro n hn
    rcases List.mem_append.mp hn with hn | hn
    · exact hrelay n hn
    · exact hrelay' n hn

theorem note {n : Notice} (h : n.isRelay) (d : Dispatcher) : Relayed d (d.note n) :=
  ⟨rfl, rfl, [n], rfl, by simpa using h⟩

theorem table (h : Relayed d d') : d'.table = d.table :=
  (congrArg Dispatcher.table h.rest :)

theorem moved (h : Relayed d d') : Moved d d' where
  rest := by
    obtain ⟨hrest, -, -⟩ := h
    rw [hrest]
  alike := h.table ▸ .refl _
  binds := h.binds

end Relayed

namespace Moved

theorem refl (d : Dispatcher) : Moved d d := ⟨rfl, .refl _, rfl⟩

theorem trans (h : Moved d d') (h' : Moved d' d'') : Moved d d'' where
  rest := calc
    d'' = { d' with
      table := d''.table, registry := d''.registry, queued := d''.queued, journal := d''.journal } := h'.rest
    _ = { d with
      table := d''.table, registry := d''.registry, queued := d''.queued, journal := d''.journal } := by
        rw [h.rest]
  alike := h.alike.trans h'.alike
  binds := h'.binds.trans h.binds

theorem held (h : Moved d d') : d'.held = d.held :=
  (congrArg Dispatcher.held h.rest :)

theorem reported (h : Moved d d') : d'.reported = d.reported :=
  (congrArg Dispatcher.reported h.rest :)

theorem contexts (h : Moved d d') : d'.contexts = d.contexts :=
  (congrArg Dispatcher.contexts h.rest :)

theorem isPressed (h : Moved d d') (k : Key) : d'.isPressed k = d.isPressed k := by
  unfold Dispatcher.isPressed
  rw [h.held, h.reported]

theorem isFullyPressed (h : Moved d d') (combo : Combo) : d'.isFullyPressed combo = d.isFullyPressed combo := by
  unfold Dispatcher.isFullyPressed
  rw [funext h.isPressed]

end Moved

namespace Keyed

theorem trans (h : Keyed d d') (h' : Keyed d' d'') : Keyed d d'' where
  rest := calc
    d'' = { d' with
      table := d''.table, registry := d''.registry, queued := d''.queued, journal := d''.journal
      held := d''.held, reported := d''.reported } := h'.rest
    _ = { d with
      table := d''.table, registry := d''.registry, queued := d''.queued, journal := d''.journal
      held := d''.held, reported := d''.reported } := by rw [h.rest]
  alike := h.alike.trans h'.alike
  binds := h'.binds.trans h.binds

theorem press (d : Dispatcher) (held : List Key) (reported : Flags) :
    Keyed d { d with held, reported } := ⟨rfl, .refl _, rfl⟩

theorem contexts (h : Keyed d d') : d'.contexts = d.contexts :=
  (congrArg Dispatcher.contexts h.rest :)

theorem nextId (h : Keyed d d') : d'.nextId = d.nextId :=
  (congrArg Dispatcher.nextId h.rest :)

end Keyed

theorem Moved.keyed (h : Moved d d') : Keyed d d' where
  rest := by
    obtain ⟨hrest, -, -⟩ := h
    rw [hrest]
  alike := h.alike
  binds := h.binds

/-! ### Telling -/

theorem relayed_tellHandlers (m : Message) (hs : List Handler) (d : Dispatcher) :
    Relayed d (tellHandlers m hs d).2 := by
  have htold : ∀ (ts : List Told) (d : Dispatcher),
      Relayed d (ts.foldl (fun d t => d.note (.handler t)) d) := by
    intro ts
    induction ts with
    | nil => exact .refl
    | cons t ts ih => exact fun d => (Relayed.note rfl d).trans (ih _)
  induction hs generalizing d with
  | nil => exact .refl d
  | cons h hs ih =>
    rw [tellHandlers]
    split
    · exact htold _ d
    · exact (htold _ d).trans (ih _)

theorem relayed_tellListeners (change : Change) (ls : List Listener) (handled : Bool) (d : Dispatcher) :
    Relayed d (tellListeners change ls handled d).2 := by
  induction ls generalizing handled d with
  | nil => exact .refl d
  | cons l ls ih =>
    rw [tellListeners]
    exact (Relayed.note rfl d).trans (ih _ _)

theorem binds_handlersFor (r : Registry) (function : String) :
    (r.handlersFor function).2.binds = r.binds := by
  unfold Registry.handlersFor Registry.refreshed Registry.rebuild
  split <;> rfl

theorem relayed_pass (change : Change) (handled : Bool) (d : Dispatcher) :
    Relayed d (pass change handled d).2 := by
  have hpassed : Relayed d
      ({ d with registry := (d.registry.handlersFor change.function).2 }.note (.passed change)) :=
    ⟨rfl, binds_handlersFor d.registry change.function, [.passed change], rfl, by simp [Notice.isRelay]⟩
  unfold pass
  simp only
  split
  · exact hpassed.trans (relayed_tellListeners _ _ _ _)
  · exact hpassed.trans (relayed_tellHandlers _ _ _)

theorem relayed_present (change : Change) (d : Dispatcher) : Relayed d (present change d).2 := by
  unfold present
  cases d.ui with
  | none => exact .refl d
  | some ui => exact .note rfl d

theorem relayed_offerFocus (d : Dispatcher) : Relayed d d.offerFocus.2 := by
  unfold offerFocus
  cases d.ui with
  | none => exact .refl d
  | some ui => exact .note rfl d

theorem relayed_askHook (e : Event) (kind : Keyboard.EventKind) (d : Dispatcher) :
    Relayed d (askHook e kind d).2 := by
  unfold askHook
  cases d.hook with
  | none => exact .refl d
  | some hook => exact .note rfl d

/-! ### Changes of state -/

theorem setState_none (h : d.table.get? id = none) : setState id state uiOnly d = (false, d) := by
  rw [setState, h]

/-- A command is only queued. -/
theorem setState_command {b : Binding} (h : d.table.get? id = some b) (hkind : b.kind = .command) :
    setState id .down uiOnly d = (true, { d with queued := d.queued ++ [b.function] }) := by
  rw [setState, h]
  simp [hkind]

/-- Every other binding is turned, the change is noted, and everybody is told. -/
theorem relayed_setState {b : Binding} (h : d.table.get? id = some b)
    (hkind : ¬(b.kind = .command ∧ state = .down)) :
    Relayed ({ d with table := d.table.setState id state }.note (.transition id b.state state))
      (setState id state uiOnly d).2 := by
  have hkind' : (decide (b.kind = .command) && decide (state = .down)) = false := by
    simpa using fun hk => not_and.mp hkind hk
  rw [setState, h]
  simp only [hkind', Bool.false_eq_true, if_false]
  split
  · exact (relayed_present _ _).trans (relayed_pass _ _ _)
  · exact relayed_present _ _

theorem moved_setState (id : Nat) (state : BindingState) (uiOnly : Bool) (d : Dispatcher) :
    Moved d (setState id state uiOnly d).2 := by
  cases h : d.table.get? id with
  | none =>
    rw [setState_none h]
    exact .refl d
  | some b =>
    by_cases hkind : b.kind = .command ∧ state = .down
    · obtain ⟨hkind, rfl⟩ := hkind
      rw [setState_command h hkind]
      exact ⟨rfl, .refl _, rfl⟩
    · refine Moved.trans ?_ (relayed_setState h hkind).moved
      exact ⟨rfl, Table.alike_setState _ _ _, rfl⟩

theorem moved_releaseBinding (d : Dispatcher) (id : Nat) : Moved d (d.releaseBinding id) := by
  unfold releaseBinding
  split
  · exact .refl d
  · split
    · exact .refl d
    · exact moved_setState _ _ _ d

theorem moved_releaseAll (ids : List Nat) (d : Dispatcher) : Moved d (ids.foldl releaseBinding d) := by
  induction ids generalizing d with
  | nil => exact .refl d
  | cons id ids ih => exact (moved_releaseBinding d id).trans (ih _)

theorem moved_releaseKey (k : Key) (d : Dispatcher) : Moved d (releaseKey k d).2 :=
  moved_releaseAll _ d

theorem moved_pressBinding (uiOnly isRepeat : Bool) (id : Nat) (d : Dispatcher) :
    Moved d (pressBinding uiOnly isRepeat id d).2 := by
  unfold pressBinding
  split
  · exact .refl d
  · split_ifs
    all_goals first
      | exact .refl d
      | exact moved_setState _ _ _ d

theorem pressAll_cons (uiOnly isRepeat : Bool) (id : Nat) (ids : List Nat) (d : Dispatcher) :
    pressAll uiOnly isRepeat (id :: ids) d
      = if (pressBinding uiOnly isRepeat id d).1 then (pressBinding uiOnly isRepeat id d).2
        else pressAll uiOnly isRepeat ids (pressBinding uiOnly isRepeat id d).2 := rfl

theorem moved_pressAll (uiOnly isRepeat : Bool) (ids : List Nat) (d : Dispatcher) :
    Moved d (pressAll uiOnly isRepeat ids d) := by
  induction ids generalizing d with
  | nil => exact .refl d
  | cons id ids ih =>
    rw [pressAll_cons]
    split
    · exact moved_pressBinding _ _ _ d
    · exact (moved_pressBinding _ _ _ d).trans (ih _)

/-! ### Which bindings are down -/

/-- A binding that goes up leaves the others that are down. -/
theorem down_setState_up (hd : d.table.Distinct) {x : Binding}
    (hx : x ∈ (setState id .up uiOnly d).2.table.bindings) (hdown : x.isDown) :
    x ∈ d.table.bindings ∧ x.id ≠ id := by
  cases h : d.table.get? id with
  | none =>
    rw [setState_none h] at hx
    exact ⟨hx, Table.get?_eq_none_iff.mp h x hx⟩
  | some b =>
    rw [(relayed_setState h (by simp)).table] at hx
    simp only [note] at hx
    rw [Table.setState_bindings hd] at hx
    obtain ⟨c, hc, rfl⟩ := List.mem_map.mp hx
    by_cases hid : c.id = id
    · rw [Binding.turned_self hid] at hdown
      simp [Binding.isDown] at hdown
    · rw [Binding.turned_other hid]
      exact ⟨hc, hid⟩

/-- A binding that goes down is no command. -/
theorem down_setState_down (hd : d.table.Distinct) {x : Binding}
    (hx : x ∈ (setState id .down uiOnly d).2.table.bindings) (hdown : x.isDown) :
    x ∈ d.table.bindings ∨
      ∃ b ∈ d.table.bindings, b.id = id ∧ b.kind ≠ .command ∧ x = { b with state := .down } := by
  cases h : d.table.get? id with
  | none =>
    rw [setState_none h] at hx
    exact .inl hx
  | some b =>
    by_cases hkind : b.kind = .command
    · rw [setState_command h hkind] at hx
      exact .inl hx
    · rw [(relayed_setState h (by simp [hkind])).table] at hx
      simp only [note] at hx
      rw [Table.setState_bindings hd] at hx
      obtain ⟨c, hc, rfl⟩ := List.mem_map.mp hx
      by_cases hid : c.id = id
      · obtain rfl : b = c := hd.eq_of_id (Table.get?_mem h).1 hc ((Table.get?_mem h).2.trans hid.symm)
        exact .inr ⟨b, hc, hid, hkind, Binding.turned_self hid _⟩
      · rw [Binding.turned_other hid]
        exact .inl hc

/-- After a release the binding is only down if it is a toggle. -/
theorem down_releaseBinding (hd : d.table.Distinct) {x : Binding}
    (hx : x ∈ (d.releaseBinding id).table.bindings) (hdown : x.isDown) :
    x ∈ d.table.bindings ∧ (x.id = id → x.kind = .toggle) := by
  unfold releaseBinding at hx
  cases h : d.table.get? id with
  | none =>
    rw [h] at hx
    exact ⟨hx, fun hid => absurd hid (Table.get?_eq_none_iff.mp h x hx)⟩
  | some b =>
    rw [h] at hx
    simp only at hx
    split at hx
    · rename_i hkeep
      refine ⟨hx, fun hid => ?_⟩
      obtain rfl : b = x := hd.eq_of_id (Table.get?_mem h).1 hx ((Table.get?_mem h).2.trans hid.symm)
      simpa [Binding.isDown_iff.mp hdown] using hkeep
    · obtain ⟨hmem, hid⟩ := down_setState_up hd hx hdown
      exact ⟨hmem, fun heq => absurd heq hid⟩

theorem down_releaseAll {ids : List Nat} (hd : d.table.Distinct) {x : Binding}
    (hx : x ∈ (ids.foldl releaseBinding d).table.bindings) (hdown : x.isDown) :
    x ∈ d.table.bindings ∧ (x.id ∈ ids → x.kind = .toggle) := by
  induction ids generalizing d with
  | nil => exact ⟨hx, by simp⟩
  | cons id ids ih =>
    obtain ⟨hmem, hrest⟩ := ih ((moved_releaseBinding d id).alike.distinct hd) hx
    obtain ⟨hmem, hfirst⟩ := down_releaseBinding hd hmem hdown
    refine ⟨hmem, fun hid => ?_⟩
    rcases List.mem_cons.mp hid with hid | hid
    · exact hfirst hid
    · exact hrest hid

/-- What is down after a press was down before or is one of those that have been pressed. -/
theorem down_pressBinding {isRepeat : Bool} (hd : d.table.Distinct) {x : Binding}
    (hx : x ∈ (pressBinding uiOnly isRepeat id d).2.table.bindings) (hdown : x.isDown) :
    x ∈ d.table.bindings ∨
      ∃ b ∈ d.table.bindings, b.id = id ∧ b.kind ≠ .command ∧ x = { b with state := .down } := by
  unfold pressBinding at hx
  split at hx
  · exact .inl hx
  · split_ifs at hx
    · exact down_setState_down hd hx hdown
    · exact down_setState_down hd hx hdown
    · exact .inl hx
    · exact .inl (down_setState_up hd hx hdown).1
    · exact .inl hx

theorem down_pressAll {isRepeat : Bool} {ids : List Nat} (hd : d.table.Distinct) {x : Binding}
    (hx : x ∈ (pressAll uiOnly isRepeat ids d).table.bindings) (hdown : x.isDown) :
    x ∈ d.table.bindings ∨
      ∃ b ∈ d.table.bindings, b.id ∈ ids ∧ b.kind ≠ .command ∧ x = { b with state := .down } := by
  induction ids generalizing d with
  | nil => exact .inl hx
  | cons id ids ih =>
    have hfirst : ∀ y ∈ (pressBinding uiOnly isRepeat id d).2.table.bindings, y.isDown →
        y ∈ d.table.bindings ∨
          ∃ b ∈ d.table.bindings, b.id ∈ id :: ids ∧ b.kind ≠ .command ∧ y = { b with state := .down } := by
      intro y hy hydown
      rcases down_pressBinding hd hy hydown with hy | ⟨b, hb, rfl, hrest⟩
      · exact .inl hy
      · exact .inr ⟨b, hb, List.mem_cons_self, hrest⟩
    rw [pressAll_cons] at hx
    split at hx
    · exact hfirst x hx hdown
    · have halike := (moved_pressBinding uiOnly isRepeat id d).alike
      rcases ih (halike.distinct hd) hx with hx | ⟨c, hc, hid, hkind, rfl⟩
      · exact hfirst x hx hdown
      · obtain ⟨b, hb, heq⟩ := halike.exists_mem hc
        have hids : b.id = c.id := (congrArg Binding.id heq :)
        have hkinds : b.kind = c.kind := (congrArg Binding.kind heq :)
        refine .inr ⟨b, hb, List.mem_cons_of_mem _ (hids ▸ hid), hkinds ▸ hkind, ?_⟩
        exact (congrArg (fun x : Binding => { x with state := .down }) heq).symm

end Dispatcher

end KeyConsole.Dispatch
