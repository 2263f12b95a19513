import KeyConsole.Proofs.Dispatch.ContextSwitch
import KeyConsole.Proofs.Dispatch.Selection

/-!
# Proofs.Dispatch.Queueing: how commands come into the queue

A command is never down: to go down, for it, is to be queued.  So a press that reaches a command queues it and is
dealt with, be the press repeated or not, and may the command repeat or not.  Nothing else queues.
-/

namespace KeyConsole.Dispatch.Dispatcher

open Keyboard (Combo Event)

variable {uiOnly isRepeat : Bool} {id : Nat} {state : BindingState} {b : Binding} {bs : List Binding} {t : Table}
  {d d' d'' : Dispatcher}

/-! ### What queues nothing -/

/-- The queue is as it was, and what is down was down before. -/
structure Idle (d d' : Dispatcher) : Prop where
  queued : d'.queued = d.queued
  down : ∀ b ∈ d'.table.bindings, b.isDown → b ∈ d.table.bindings

namespace Idle

theorem of_table (hqueued : d'.queued = d.queued) (htable : d'.table = d.table) : Idle d d' :=
  ⟨hqueued, fun _ hb _ => htable ▸ hb⟩

theorem trans (h : Idle d d') (h' : Idle d' d'') : Idle d d'' :=
  ⟨h'.queued.trans h.queued, fun b hb hdown => h.down b (h'.down b hb hdown) hdown⟩

theorem relayed (h : Relayed d d') : Idle d d' := of_table (congrArg Dispatcher.queued h.rest :) h.table

theorem edit (h : Edit d d') : Idle d d' := by
  cases h with
  | @insert b r modified h =>
    refine ⟨rfl, fun c hc hdown => ((Table.mem_insert c).mp hc).resolve_left ?_⟩
    rintro rfl
    rw [Binding.isDown_iff, (ofRegistration?_eq_some h).2.1] at hdown
    cases hdown
  | delete modified h => exact ⟨rfl, fun c hc _ => List.mem_of_mem_eraseP hc⟩
  | putDown modified shipped => exact of_table rfl rfl

theorem edited (h : Edited d d') : Idle d d' := by
  induction h with
  | refl => exact of_table rfl rfl
  | tail _ h ih => exact ih.trans (edit h)

end Idle

theorem idle_setState_up (id : Nat) (uiOnly : Bool) (d : Dispatcher) : Idle d (setState id .up uiOnly d).2 := by
  cases h : d.table.get? id with
  | none =>
    rw [setState_none h]
    exact .of_table rfl rfl
  | some b =>
    have hrelayed : Relayed _ (setState id .up uiOnly d).2 := relayed_setState h (by simp)
    refine ⟨(congrArg queued hrelayed.rest :), fun c hc hdown => ?_⟩
    rw [hrelayed.table] at hc
    refine (Table.mem_setState hc).resolve_right fun hup => ?_
    rw [Binding.isDown_iff, hup] at hdown
    cases hdown

theorem idle_releaseBinding (d : Dispatcher) (id : Nat) : Idle d (d.releaseBinding id) := by
  unfold releaseBinding
  split
  · exact .of_table rfl rfl
  · split
    · exact .of_table rfl rfl
    · exact idle_setState_up id false d

theorem idle_alongReleases : AlongReleases Idle where
  trans := Idle.trans
  relayed := Idle.relayed
  pressed _ _ _ := .of_table rfl rfl
  released := idle_releaseBinding

theorem idle_setActiveContext {name : String} (h : setActiveContext name d = .ok d') : Idle d d' := by
  have hactivated : Idle d (activated name d) := .of_table rfl rfl
  obtain ⟨-, ⟨-, rfl⟩ | ⟨-, rfl⟩ | ⟨old, -, rfl⟩⟩ := setActiveContext_eq_ok h
  · exact .of_table rfl rfl
  · exact hactivated
  · exact hactivated.trans (idle_alongReleases.foldl (fun d id => idle_setState_up id false d) _ _)

/-! ### Commands -/

/-- No command is down. -/
def CommandsUp (d : Dispatcher) : Prop := ∀ b ∈ d.table.bindings, b.kind = .command → ¬b.isDown

/-- If no further command goes down, none is down. -/
theorem CommandsUp.of_down (hup : d.CommandsUp)
    (h : ∀ b ∈ d'.table.bindings, b.isDown → b ∈ d.table.bindings ∨ b.kind ≠ .command) : d'.CommandsUp := by
  intro b hb hkind hdown
  rcases h b hb hdown with hb | hne
  · exact hup b hb hkind hdown
  · exact hne hkind

theorem CommandsUp.idle (hup : d.CommandsUp) (h : Idle d d') : d'.CommandsUp :=
  hup.of_down fun b hb hdown => .inl (h.down b hb hdown)

theorem commandsUp_pressBinding (hs : d.table.Distinct) (hup : d.CommandsUp) (uiOnly isRepeat : Bool) (id : Nat) :
    (pressBinding uiOnly isRepeat id d).2.CommandsUp := by
  refine hup.of_down fun b hb hdown => (down_pressBinding hs hb hdown).imp_right ?_
  rintro ⟨c, -, -, hne, rfl⟩
  exact hne

theorem commandsUp_pressAll (hs : d.table.Distinct) (hup : d.CommandsUp) (uiOnly isRepeat : Bool) (ids : List Nat) :
    (pressAll uiOnly isRepeat ids d).CommandsUp := by
  refine hup.of_down fun b hb hdown => (down_pressAll hs hb hdown).imp_right ?_
  rintro ⟨c, -, -, hne, rfl⟩
  exact hne

/-- A command that a press is offered to is queued and deals with it, whether the press is repeated or not, and
whether the command may repeat or not. -/
theorem pressBinding_command (hup : d.CommandsUp) (h : d.table.get? id = some b) (hkind : b.kind = .command) :
    pressBinding uiOnly isRepeat id d = (true, { d with queued := d.queued ++ [b.function] }) := by
  unfold pressBinding
  rw [h]
  simp only [hup b (Table.get?_mem h).1 hkind, Bool.not_false, if_true]
  exact setState_command h hkind

theorem queued_setState (h : d.table.get? id = some b) (hkind : b.kind ≠ .command) :
    (setState id state uiOnly d).2.queued = d.queued := by
  have hrelayed : Relayed _ (setState id state uiOnly d).2 := relayed_setState h (by simp [hkind])
  exact (congrArg queued hrelayed.rest :)

theorem queued_pressBinding (h : d.table.get? id = some b) (hkind : b.kind ≠ .command) :
    (pressBinding uiOnly isRepeat id d).2.queued = d.queued := by
  unfold pressBinding
  rw [h]
  simp only
  split_ifs
  all_goals first
    | rfl
    | exact queued_setState h hkind

/-! ### Presses -/

/-- The commands among some bindings. -/
def commandsOf (bs : List Binding) : List Binding := bs.filter (·.kind = .command)

/-- Offers queue the command that they reach, and end with it. -/
theorem queued_pressAll (hs : t.Distinct) (halike : t.Alike d.table) (hup : d.CommandsUp) (hbs : bs ⊆ t.bindings) :
    (pressAll uiOnly isRepeat (bs.map (·.id)) d).queued
        = d.queued ++ (commandsOf (asked uiOnly isRepeat bs d)).map (·.function) ∧
      (commandsOf (asked uiOnly isRepeat bs d)).length ≤ 1 := by
  induction bs generalizing d with
  | nil => exact ⟨(List.append_nil _).symm, Nat.zero_le 1⟩
  | cons b bs ih =>
    obtain ⟨hb, hbs⟩ := List.cons_subset.mp hbs
    obtain ⟨c, hc, hrest⟩ := halike.symm.exists_mem hb
    have hkind : c.kind = b.kind := (congrArg Binding.kind hrest :)
    have hfunction : c.function = b.function := (congrArg Binding.function hrest :)
    have hid : c.id = b.id := (congrArg Binding.id hrest :)
    have hget : d.table.get? b.id = some c := hid ▸ (halike.distinct hs).get?_eq_some hc
    rw [List.map_cons, pressAll_cons, asked_cons]
    by_cases hcommand : b.kind = .command
    · rw [pressBinding_command hup hget (hkind.trans hcommand), if_pos rfl, if_pos rfl]
      simp [commandsOf, hcommand, hfunction]
    · have hqueued : (pressBinding uiOnly isRepeat b.id d).2.queued = d.queued :=
        queued_pressBinding hget (hkind ▸ hcommand)
      have hskip : ∀ rest, commandsOf (b :: rest) = commandsOf rest := fun rest =>
        List.filter_cons_of_neg (by simpa using hcommand)
      split_ifs
      · rw [hskip, hqueued]
        exact ⟨(List.append_nil _).symm, Nat.zero_le 1⟩
      · rw [hskip, ← hqueued]
        have halike' := halike.trans (moved_pressBinding uiOnly isRepeat b.id d).alike
        exact ih halike' (commandsUp_pressBinding (halike.distinct hs) hup uiOnly isRepeat b.id) hbs

/-- The bindings that a press is offered to, up to the one that deals with it. -/
def reached (e : Event) (d : Dispatcher) : List Binding :=
  (d.fires? e).elim [] fun m =>
    asked (readied m (takenOver e d)).1 e.isRepeat ((takenOver e d).offered m) (readied m (takenOver e d)).2

theorem mem_reached {e : Event} :
    b ∈ d.reached e ↔ ∃ m before after, d.fires? e = some m ∧ (takenOver e d).offered m = before ++ b :: after ∧
      PassedBy (readied m (takenOver e d)).1 e.isRepeat before (readied m (takenOver e d)).2 := by
  unfold reached
  cases d.fires? e with
  | none => simp
  | some m => simp [mem_asked]

theorem offered_subset (m : Combo) (d : Dispatcher) : d.offered m ⊆ d.table.bindings :=
  fun _ hb => (mem_ready.mp (mem_offered hb).1).1

/-- A press that fires nothing is passed over, or kept by the hook, or taken over and no more. -/
theorem keyDown_of_fires_none {e : Event} (h : d.fires? e = none) :
    (keyDown e d).2 = d ∨ (keyDown e d).2 = (askHook e (pressKind e) d).2 ∨ (keyDown e d).2 = takenOver e d := by
  rw [keyDown_eq]
  unfold fires? at h
  split_ifs with hpassed hhook
  · exact .inl rfl
  · exact .inr (.inl rfl)
  · rw [if_neg (by simpa [hpassed] using hhook)] at h
    exact .inr (.inr (fired_none h))

theorem idle_of_fires_none {e : Event} (h : d.fires? e = none) : Idle d (keyDown e d).2 := by
  rcases keyDown_of_fires_none h with h | h | h <;> rw [h]
  · exact .of_table rfl rfl
  · exact idle_alongReleases.askHook e _ d
  · exact idle_alongReleases.takenOver e d

/-- A press queues the command that it reaches, if there is one, and nothing else. -/
theorem queued_keyDown (hs : d.Sound) (hsorted : d.table.Sorted) (hup : d.CommandsUp) (e : Event) :
    (keyDown e d).2.queued = d.queued ++ (commandsOf (d.reached e)).map (·.function) ∧
      (commandsOf (d.reached e)).length ≤ 1 ∧ (keyDown e d).2.CommandsUp := by
  cases hfires : d.fires? e with
  | none =>
    have hidle := idle_of_fires_none hfires
    have hreached : d.reached e = [] := by rw [reached, hfires, Option.elim_none]
    rw [hreached]
    exact ⟨hidle.queued.trans (List.append_nil _).symm, Nat.zero_le 1, hup.idle hidle⟩
  | some m =>
    obtain ⟨hselected, hfired⟩ := keyDown_of_fires hfires
    have htaken := alike_takenOver e d
    have hdistinct := htaken.distinct hs.distinct
    have hreadied := (keyed_alongReleases.readied m (takenOver e d)).alike
    have hidle := (idle_alongReleases.takenOver e d).trans (idle_alongReleases.readied m _)
    have hbegun := hup.idle hidle
    rw [hfired, fired_some (htaken.sorted hsorted) hselected, reached, hfires, Option.elim_some, ← hidle.queued]
    obtain ⟨hqueued, hlength⟩ := queued_pressAll hdistinct hreadied hbegun (offered_subset m (takenOver e d))
    exact ⟨hqueued, hlength, commandsUp_pressAll (hreadied.distinct hdistinct) hbegun _ _ _⟩

end KeyConsole.Dispatch.Dispatcher
