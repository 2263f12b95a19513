import KeyConsole.Proofs.Dispatch.KeyTransitions
import KeyConsole.Proofs.Dispatch.Selection

/-!
# Proofs.Dispatch.Toggles: when a toggle turns

No release touches a toggle, be it of a key, of a flag or of what a press forces up.  So it turns only when a
press is offered to it, or when the context in which it is live is left.
-/

namespace KeyConsole.Dispatch.Dispatcher

open Keyboard (Combo Event)

variable {uiOnly isRepeat : Bool} {id other : Nat} {ids : List Nat} {m : Combo} {b : Binding} {d d' : Dispatcher}

/-! ### Releases -/

/-- Every toggle stays as it is. -/
def KeepsToggles (d d' : Dispatcher) : Prop :=
  ∀ id b, b.kind = .toggle → d.table.get? id = some b → d'.table.get? id = some b

theorem keepsToggles_releaseBinding (d : Dispatcher) (other : Nat) : KeepsToggles d (d.releaseBinding other) := by
  intro id b hkind h
  unfold releaseBinding
  cases hother : d.table.get? other with
  | none => exact h
  | some c =>
    simp only
    split
    · exact h
    · rename_i hkeep
      have hne : id ≠ other := by
        rintro rfl
        obtain rfl : b = c := Option.some.inj (h.symm.trans hother)
        simp [hkind] at hkeep
      rw [get?_setState_other hne]
      exact h

theorem keepsToggles_alongReleases : AlongReleases KeepsToggles where
  trans h h' _ _ hkind hb := h' _ _ hkind (h _ _ hkind hb)
  relayed h _ _ _ hb := h.table ▸ hb
  pressed _ _ _ _ _ _ hb := hb
  released := keepsToggles_releaseBinding

/-! ### Presses -/

theorem get?_pressBinding_other (h : id ≠ other) :
    (pressBinding uiOnly isRepeat other d).2.table.get? id = d.table.get? id := by
  unfold pressBinding
  split
  · rfl
  · split_ifs
    all_goals first
      | rfl
      | exact get?_setState_other h

theorem get?_pressAll_other (h : id ∉ ids) :
    (pressAll uiOnly isRepeat ids d).table.get? id = d.table.get? id := by
  induction ids generalizing d with
  | nil => rfl
  | cons other ids ih =>
    obtain ⟨hne, hids⟩ := not_or.mp (List.mem_cons.not.mp h)
    rw [pressAll_cons]
    split
    · exact get?_pressBinding_other hne
    · rw [ih hids, get?_pressBinding_other hne]

theorem get?_raiseAll_other (h : id ∉ ids) :
    (ids.foldl (fun d id => (setState id .up false d).2) d).table.get? id = d.table.get? id := by
  induction ids generalizing d with
  | nil => rfl
  | cons other ids ih =>
    obtain ⟨hne, hids⟩ := not_or.mp (List.mem_cons.not.mp h)
    rw [List.foldl_cons, ih hids, get?_setState_other hne]

/-- A repeated press leaves what is down as it is. -/
theorem down_pressBinding_repeat (h : d.table.get? id = some b) (hdown : b.isDown) (other : Nat) :
    (pressBinding uiOnly true other d).2.table.get? id = some b := by
  by_cases hid : id = other
  · subst hid
    have hstate : ({ b with state := .down } : Binding) = b := by
      rw [← Binding.isDown_iff.mp hdown]
    unfold pressBinding
    rw [h]
    simp only [hdown, Bool.not_true, Bool.false_eq_true, if_false, if_true]
    split
    · by_cases hkind : b.kind = .command
      · rw [setState_command h hkind]
        exact h
      · rw [(relayed_setState h (by simp [hkind])).table]
        simp only [note]
        rw [Table.get?_setState, if_pos rfl, h, Option.map_some, hstate]
    · exact h
  · rw [get?_pressBinding_other hid]
    exact h

theorem down_pressAll_repeat (h : d.table.get? id = some b) (hdown : b.isDown) (ids : List Nat) :
    (pressAll uiOnly true ids d).table.get? id = some b := by
  induction ids generalizing d with
  | nil => exact h
  | cons other ids ih =>
    rw [pressAll_cons]
    split
    · exact down_pressBinding_repeat h hdown other
    · exact ih (down_pressBinding_repeat h hdown other)

/-- A toggle that a press turns can fire and is of the selected combination, or may fire along with it.  A
repeated press turns none that is down. -/
theorem toggle_keyDown {e : Event} {b' : Binding} (hs : d.Sound) (hsorted : d.table.Sorted)
    (hb : d.table.get? id = some b) (hkind : b.kind = .toggle)
    (hb' : (keyDown e d).2.table.get? id = some b') (hne : b'.state ≠ b.state) :
    (b.isDown → e.isRepeat = false) ∧ b ∈ (takenOver e d).ready ∧
      ∃ m, (takenOver e d).selected? e.key = some m ∧ m.contains e.key ∧
        (b.combo = m ∨ (takenOver e d).fireAlong m ∧ m.covers b.combo) := by
  have htaken := keepsToggles_alongReleases.takenOver e d id b hkind hb
  have halike := alike_takenOver e d
  have hstill : ∀ {c : Dispatcher}, (keyDown e d).2 = c → c.table.get? id = some b → False := by
    rintro c rfl hc
    exact hne (by rw [Option.some.inj (hb'.symm.trans hc)])
  rcases keyDown_cases e d with h | h | h
  · exact (hstill h hb).elim
  · exact (hstill h ((relayed_askHook e (pressKind e) d).table ▸ hb)).elim
  · change (keyDown e d).2 = fired e (takenOver e d) at h
    cases hselected : (takenOver e d).selected? e.key with
    | none =>
      rw [fired_none hselected] at h
      exact (hstill h htaken).elim
    | some m =>
      have hsorted' := halike.sorted hsorted
      have hreadied := keepsToggles_alongReleases.readied m _ id b hkind htaken
      rw [fired_some hsorted' hselected] at h
      refine ⟨fun hdown => ?_, ?_⟩
      · by_contra hrepeat
        rw [Bool.not_eq_false] at hrepeat
        rw [hrepeat] at h
        exact hstill h (down_pressAll_repeat hreadied hdown _)
      · have hmem : id ∈ ((takenOver e d).offered m).map (·.id) := by
          by_contra hnot
          exact hstill h ((get?_pressAll_other hnot).trans hreadied)
        obtain ⟨c, hc, hid⟩ := List.mem_map.mp hmem
        obtain ⟨hready, hcombo⟩ := mem_offered hc
        have hget := (halike.distinct hs.distinct).get?_eq_some (mem_ready.mp hready).1
        obtain rfl : b = c := Option.some.inj (htaken.symm.trans (hid ▸ hget))
        exact ⟨hready, m, rfl, (ready_split hsorted' hselected).1, hcombo⟩

/-- A switch of the context turns only what is down and no longer live, namely up. -/
theorem turned_setActiveContext {name : String} {b' : Binding} (hs : d.Sound) (hb : d.table.get? id = some b)
    (h : setActiveContext name d = .ok d') (hb' : d'.table.get? id = some b') (hne : b'.state ≠ b.state) :
    b.state = .down ∧ b'.state = .up ∧ d.contexts.isLive b.function ∧ ¬d'.contexts.isLive b.function := by
  have hstill : d'.table.get? id = d.table.get? id → False := by
    intro hsame
    exact hne (by rw [Option.some.inj (hb'.symm.trans (hsame.trans hb))])
  obtain ⟨-, ⟨-, rfl⟩ | ⟨-, rfl⟩ | ⟨old, hold, rfl⟩⟩ := setActiveContext_eq_ok h
  · exact (hstill rfl).elim
  · exact (hstill rfl).elim
  · obtain ⟨hmem, rfl⟩ := Table.get?_mem hb
    have hdropped : b.id ∈ dropped old name (activated name d) := by
      by_contra hnot
      exact hstill (get?_raiseAll_other hnot)
    obtain ⟨hdown, hlive, hgone⟩ := (mem_dropped hs.distinct hold hmem).mp hdropped
    have hcontexts := (moved_raiseAll (dropped old name (activated name d)) (activated name d)).contexts
    have hstate := Binding.isDown_iff.mp hdown
    refine ⟨hstate, ?_, hlive, by rwa [hcontexts]⟩
    cases hb'state : b'.state with
    | up => rfl
    | down => exact absurd (hb'state.trans hstate.symm) hne

end KeyConsole.Dispatch.Dispatcher
