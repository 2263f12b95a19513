import KeyConsole.Proofs.Dispatch.ContextSwitch
import KeyConsole.Proofs.Dispatch.KeyEvents
import KeyConsole.Proofs.Dispatch.Transitions

/-!
# Proofs.Dispatch.KeyTransitions: the transitions that key events and switches deliver

Whatever a key event or a switch of the context does, the transitions of each binding lead from the state it was
in to the one it is in afterwards, and turn it over.  Only a repeated press may fire again what is down, if the
binding allows that.  A binding that is not in the table has no transitions.
-/

namespace KeyConsole.Dispatch

open Keyboard (Key Event EventKind Flags)

/-- What is passed on when a binding goes up. -/
def Binding.release (b : Binding) : Change := ⟨b.function, .up, b.canFocus⟩

theorem Table.get?_setState (t : Table) (id : Nat) (state : BindingState) (other : Nat) :
    (t.setState id state).get? other
      = if other = id then (t.get? id).map fun b => { b with state } else t.get? other := by
  obtain ⟨bs⟩ := t
  simp only [get?, setState]
  induction bs with
  | nil => split <;> rfl
  | cons b bs ih =>
    simp only [setState.set]
    by_cases hb : b.id = id
    · rw [if_pos hb]
      by_cases hother : other = id
      · simp [hother, hb]
      · have hne : ¬b.id = other := fun h => hother (h.symm.trans hb)
        simp [hother, hne]
    · rw [if_neg hb, List.find?_cons, List.find?_cons, ih]
      by_cases hother : other = id
      · subst hother
        simp [hb]
      · by_cases hbo : b.id = other <;> simp [hother, hbo]

namespace Dispatcher

variable {again uiOnly : Bool} {ns ns' : List Notice} {id : Nat} {state : BindingState} {b : Binding}
  {d d' d'' : Dispatcher}

/-- Bindings have gone from state to state, as it has been told.  If `again`, those that may repeat have fired
again. -/
structure Delivered (again : Bool) (ns : List Notice) (d d' : Dispatcher) : Prop where
  journal : d'.journal = d.journal ++ ns
  nextId : d'.nextId = d.nextId
  absent : ∀ id, d.table.get? id = none → d'.table.get? id = none ∧ changes id ns = []
  way : ∀ id b, d.table.get? id = some b → ∃ b', d'.table.get? id = some b' ∧ b'.atRest = b.atRest ∧
    Way (again && b.canRepeat) b.state (changes id ns) b'.state
  passed : UpsPassed (fun _ id change => ∃ b, d.table.get? id = some b ∧ change = b.release) ns

/-- Bindings have gone from state to state, and all of it has been told. -/
def Delivers (again : Bool) (d d' : Dispatcher) : Prop := ∃ ns, Delivered again ns d d'

namespace Delivers

/-- The bindings are as they were, and only what is no change of them has been told. -/
theorem still (htable : d'.table = d.table) (hnext : d'.nextId = d.nextId)
    (hjournal : ∃ ns, d'.journal = d.journal ++ ns ∧ ∀ n ∈ ns, n.isRelay) : Delivers again d d' := by
  obtain ⟨ns, hns, hrelay⟩ := hjournal
  refine ⟨ns, hns, hnext, fun id h => ⟨htable ▸ h, changes_relayed hrelay⟩, fun id b h => ?_,
    .of_changes fun id => changes_relayed hrelay⟩
  rw [htable, changes_relayed hrelay]
  exact ⟨b, h, rfl, .stay _⟩

theorem refl (d : Dispatcher) : Delivers again d d := still rfl rfl ⟨[], by simp, by simp⟩

theorem relayed (h : Relayed d d') : Delivers again d d' :=
  still h.table h.moved.keyed.nextId h.told

theorem trans (h : Delivers again d d') (h' : Delivers again d' d'') : Delivers again d d'' := by
  obtain ⟨ns, h⟩ := h
  obtain ⟨ns', h'⟩ := h'
  refine ⟨ns ++ ns', ?_, h'.nextId.trans h.nextId, fun id hid => ?_, fun id b hb => ?_, ?_⟩
  · rw [h'.journal, h.journal, List.append_assoc]
  · obtain ⟨hid', hnil⟩ := h.absent id hid
    obtain ⟨hid'', hnil'⟩ := h'.absent id hid'
    exact ⟨hid'', by rw [changes_append, hnil, hnil', List.append_nil]⟩
  · obtain ⟨b', hb', hrest, hway⟩ := h.way id b hb
    obtain ⟨b'', hb'', hrest', hway'⟩ := h'.way id b' hb'
    have hrepeat : b'.canRepeat = b.canRepeat := (congrArg Binding.canRepeat hrest :)
    refine ⟨b'', hb'', hrest'.trans hrest, ?_⟩
    rw [changes_append]
    exact hway.append (hrepeat ▸ hway')
  · refine h.passed.append h'.passed fun told id change hchange => ?_
    obtain ⟨b', hb', rfl⟩ := hchange
    cases hb : d.table.get? id with
    | none => exact absurd (hb'.symm.trans (h.absent id hb).1) (by simp)
    | some b =>
      obtain ⟨c, hc, hrest, -⟩ := h.way id b hb
      obtain rfl : b' = c := Option.some.inj (hb'.symm.trans hc)
      exact ⟨b, rfl, (congrArg Binding.release hrest :)⟩

end Delivers

/-! ### One binding -/

theorem told_present (change : Change) (d : Dispatcher) :
    ∃ shown, (present change d).2.journal = d.journal ++ shown ∧ (shown = [] ∨ shown = [.shown change]) := by
  unfold present
  cases d.ui with
  | none => exact ⟨[], (List.append_nil _).symm, .inl rfl⟩
  | some ui => exact ⟨_, rfl, .inr rfl⟩

theorem told_pass (change : Change) (handled : Bool) (d : Dispatcher) :
    ∃ rest, (pass change handled d).2.journal = d.journal ++ .passed change :: rest := by
  have happend : ∀ {p : Dispatcher}, Relayed
      ({ d with registry := (d.registry.handlersFor change.function).2 }.note (.passed change)) p →
      ∃ rest, p.journal = d.journal ++ .passed change :: rest := by
    intro p h
    obtain ⟨rest, hrest, -⟩ := h.told
    exact ⟨rest, by rw [hrest]; simp [note]⟩
  unfold pass
  simp only
  split
  · exact happend (relayed_tellListeners _ _ _ _)
  · exact happend (relayed_tellHandlers _ _ _)

/-- What goes up is passed on next. -/
theorem passed_setState_up (uiOnly : Bool) (h : d.table.get? id = some b) :
    ∃ ns, (setState id .up uiOnly d).2.journal = d.journal ++ .transition id b.state .up :: ns ∧
      PassedOn b.release ns := by
  set turned := { d with table := d.table.setState id .up }.note (.transition id b.state .up) with hturned
  obtain ⟨shown, hpresent, hshown⟩ := told_present b.release turned
  obtain ⟨rest, hpass⟩ :=
    told_pass b.release (present b.release turned).1.handles (present b.release turned).2
  have hup : (setState id .up uiOnly d).2
      = (pass b.release (present b.release turned).1.handles (present b.release turned).2).2 := by
    rw [setState, h]
    simp [hturned, Binding.release]
  refine ⟨shown ++ .passed b.release :: rest, ?_, shown, rest, rfl, hshown⟩
  rw [hup, hpass, hpresent]
  simp [hturned, note]

/-- A binding that turns over, or fires again where that may be, delivers this and nothing else. -/
theorem delivers_setState (h : d.table.get? id = some b)
    (hway : Way (again && b.canRepeat) b.state [(b.state, state)] state) :
    Delivers again d (setState id state uiOnly d).2 := by
  by_cases hkind : b.kind = .command ∧ state = .down
  · obtain ⟨hkind, rfl⟩ := hkind
    rw [setState_command h hkind]
    exact .still rfl rfl ⟨[], by simp, by simp⟩
  · have hrelayed : Relayed _ (setState id state uiOnly d).2 := relayed_setState h hkind
    obtain ⟨ns, hns, hrelay⟩ := hrelayed.told
    have hjournal : (setState id state uiOnly d).2.journal
        = d.journal ++ .transition id b.state state :: ns := by
      rw [hns]
      simp [note]
    have hget : ∀ other, (setState id state uiOnly d).2.table.get? other
        = if other = id then some { b with state } else d.table.get? other := by
      intro other
      rw [hrelayed.table]
      simp only [note]
      rw [Table.get?_setState, h, Option.map_some]
    refine ⟨_, hjournal, hrelayed.moved.keyed.nextId, fun other hother => ?_, fun other c hc => ?_, ?_⟩
    · have hne : other ≠ id := by
        rintro rfl
        exact absurd (h.symm.trans hother) (by simp)
      rw [hget, if_neg hne, changes_transition, if_neg hne.symm, changes_relayed hrelay]
      exact ⟨hother, rfl⟩
    · rw [hget, changes_transition, changes_relayed hrelay]
      by_cases hid : other = id
      · obtain rfl : b = c := Option.some.inj (h.symm.trans (hid ▸ hc))
        rw [if_pos hid, if_pos hid.symm]
        exact ⟨_, rfl, rfl, hway⟩
      · rw [if_neg hid, if_neg (Ne.symm hid)]
        exact ⟨c, hc, rfl, .stay _⟩
    · intro told other before rest heq
      cases told with
      | nil =>
        obtain ⟨hfirst, rfl⟩ := List.cons.inj heq
        obtain ⟨rfl, -, rfl⟩ := Notice.transition.inj hfirst
        obtain ⟨ns', hns', hpassed⟩ := passed_setState_up uiOnly h
        obtain ⟨-, rfl⟩ := List.cons.inj (List.append_cancel_left (hjournal.symm.trans hns'))
        exact ⟨_, ⟨b, h, rfl⟩, hpassed⟩
      | cons n told =>
        -- behind the transition only telling is noted
        obtain ⟨-, rfl⟩ := List.cons.inj heq
        have hrelay' := hrelay (.transition other before .up) (by simp)
        cases hrelay'

theorem delivers_releaseBinding (d : Dispatcher) (id : Nat) : Delivers again d (d.releaseBinding id) := by
  unfold releaseBinding
  cases h : d.table.get? id with
  | none => exact .refl d
  | some b =>
    simp only
    split
    · exact .refl d
    · rename_i hdown
      have hne : b.state ≠ .up := fun hup => hdown (by simp [hup])
      exact delivers_setState h (.turn hne (.stay _))

theorem delivers_pressBinding (uiOnly isRepeat : Bool) (id : Nat) (d : Dispatcher) :
    Delivers isRepeat d (pressBinding uiOnly isRepeat id d).2 := by
  unfold pressBinding
  cases h : d.table.get? id with
  | none => exact .refl d
  | some b =>
    simp only
    split_ifs with hup hrepeat hcan htoggle
    · have hne : b.state ≠ .down := fun hdown => by simp [Binding.isDown_iff.mpr hdown] at hup
      exact delivers_setState h (.turn hne (.stay _))
    · have hdown : b.state = .down := Binding.isDown_iff.mp (by simpa using hup)
      refine delivers_setState h ?_
      rw [hdown]
      exact .fire (by simp [hrepeat, hcan]) (.stay _)
    · exact .refl d
    · have hdown : b.state = .down := Binding.isDown_iff.mp (by simpa using hup)
      exact delivers_setState h (.turn (by simp [hdown]) (.stay _))
    · exact .refl d

theorem delivers_pressAll (uiOnly isRepeat : Bool) (ids : List Nat) (d : Dispatcher) :
    Delivers isRepeat d (pressAll uiOnly isRepeat ids d) := by
  induction ids generalizing d with
  | nil => exact .refl d
  | cons id ids ih =>
    rw [pressAll_cons]
    split
    · exact delivers_pressBinding _ _ _ d
    · exact (delivers_pressBinding _ _ _ d).trans (ih _)

/-! ### Key events -/

theorem delivers_alongReleases : AlongReleases (Delivers again) where
  trans := Delivers.trans
  relayed := Delivers.relayed
  pressed _ _ _ := .still rfl rfl ⟨[], by simp, by simp⟩
  released := delivers_releaseBinding

theorem delivers_fired (e : Event) (d : Dispatcher) : Delivers e.isRepeat d (fired e d) := by
  have hreleased : Delivers e.isRepeat d ((d.matching e.key).released.foldl releaseBinding d) :=
    delivers_alongReleases.foldl delivers_releaseBinding _ d
  unfold fired
  simp only
  split
  · exact (hreleased.trans (.relayed (relayed_offerFocus _))).trans (delivers_pressAll _ _ _ _)
  · exact hreleased.trans (delivers_pressAll _ _ _ _)

theorem delivers_keyDown (e : Event) (d : Dispatcher) : Delivers e.isRepeat d (keyDown e d).2 := by
  rcases keyDown_cases e d with h | h | h
  · rw [h]
    exact .refl d
  · rw [h]
    exact .relayed (relayed_askHook e _ d)
  · rw [h]
    exact ((Delivers.relayed (relayed_askHook e _ d)).trans (delivers_alongReleases.struck e _)).trans
      (delivers_fired e _)

theorem delivers_keyUp (e : Event) (d : Dispatcher) : Delivers again d (keyUp e d).2 :=
  delivers_alongReleases.keyUp e d

/-! ### Switches of the context -/

theorem get?_setState_other {other : Nat} (h : other ≠ id) :
    (setState id state uiOnly d).2.table.get? other = d.table.get? other := by
  cases hget : d.table.get? id with
  | none => rw [setState_none hget]
  | some b =>
    by_cases hkind : b.kind = .command ∧ state = .down
    · obtain ⟨hkind, rfl⟩ := hkind
      rw [setState_command hget hkind]
    · rw [(relayed_setState hget hkind).table]
      simp only [note]
      rw [Table.get?_setState, if_neg h]

/-- Bindings that are down are let go, each once. -/
theorem delivers_raiseAll {ids : List Nat} (hids : ids.Nodup)
    (hdown : ∀ id ∈ ids, ∀ b, d.table.get? id = some b → b.isDown) :
    Delivers again d (ids.foldl (fun d id => (setState id .up false d).2) d) := by
  induction ids generalizing d with
  | nil => exact .refl d
  | cons id ids ih =>
    obtain ⟨hnot, hids⟩ := List.nodup_cons.mp hids
    have hfirst : Delivers again d (setState id .up false d).2 := by
      cases h : d.table.get? id with
      | none =>
        rw [setState_none h]
        exact .refl d
      | some b =>
        have hb := Binding.isDown_iff.mp (hdown id List.mem_cons_self b h)
        exact delivers_setState h (.turn (by simp [hb]) (.stay _))
    refine hfirst.trans (ih hids fun other hother b hb => ?_)
    have hne : other ≠ id := by
      rintro rfl
      exact hnot hother
    rw [get?_setState_other hne] at hb
    exact hdown other (List.mem_cons_of_mem id hother) b hb

theorem delivers_setActiveContext {name : String} (hs : d.Sound) (h : setActiveContext name d = .ok d') :
    Delivers again d d' := by
  have hactivated : Delivers again d (activated name d) := .still rfl rfl ⟨[], by simp [activated], by simp⟩
  obtain ⟨-, ⟨-, rfl⟩ | ⟨-, rfl⟩ | ⟨old, -, rfl⟩⟩ := setActiveContext_eq_ok h
  · exact .refl _
  · exact hactivated
  · refine hactivated.trans (delivers_raiseAll ?_ fun id hid b hb => ?_)
    · exact hs.distinct.sublist (List.filter_sublist.map _)
    · obtain ⟨c, hc, rfl⟩ := List.mem_map.mp hid
      obtain ⟨hmem, hdropped⟩ := List.mem_filter.mp hc
      obtain rfl : c = b := Option.some.inj ((hs.distinct.get?_eq_some hmem).symm.trans hb)
      simp only [Bool.and_eq_true] at hdropped
      exact hdropped.1

end Dispatcher

end KeyConsole.Dispatch
