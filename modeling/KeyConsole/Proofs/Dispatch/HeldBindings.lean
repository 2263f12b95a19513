import KeyConsole.Proofs.Dispatch.ContextSwitch
import KeyConsole.Proofs.Dispatch.KeyEvents

/-!
# Proofs.Dispatch.HeldBindings: a binding that is down is held

What is down is live and no command, and if it is no toggle, all its keys are pressed.  A key event keeps this
because bindings are released before a key or a flag goes off, and a switch of the context because it releases
what is no longer live.
-/

namespace KeyConsole.Dispatch.Dispatcher

open Keyboard (Key Combo Event EventKind Flags)

variable {d d' : Dispatcher} {id : Nat} {k : Key}

/-- The binding is live and no command, and fully pressed unless it is a toggle. -/
def Justified (d : Dispatcher) (b : Binding) : Prop :=
  b.kind ≠ .command ∧ d.contexts.isLive b.function ∧ (b.kind = .state → d.isFullyPressed b.combo)

/-- Every binding that is down is justified. -/
def Settled (d : Dispatcher) : Prop := ∀ b ∈ d.table.bindings, b.isDown → d.Justified b

/-- No binding that is down and no toggle uses a key. -/
def Unused (k : Key) (d : Dispatcher) : Prop :=
  ∀ b ∈ d.table.bindings, b.isDown → b.kind = .state → ¬b.combo.contains k

/-! ### What keeps bindings justified -/

theorem isFullyPressed_iff {combo : Combo} :
    d.isFullyPressed combo ↔ ∀ j ∈ combo.keys, d.isPressed j := by
  simp [isFullyPressed]

theorem Moved.justified (h : Moved d d') {b : Binding} (hb : d.Justified b) : d'.Justified b := by
  unfold Justified
  rw [h.contexts, h.isFullyPressed]
  exact hb

/-- If no further binding goes down, all stay justified. -/
theorem Settled.moved (hd : d.Settled) (h : Moved d d')
    (hdown : ∀ b ∈ d'.table.bindings, b.isDown → b ∈ d.table.bindings) : d'.Settled :=
  fun b hb hbdown => h.justified (hd b (hdown b hb hbdown) hbdown)

theorem Settled.relayed (hd : d.Settled) (h : Relayed d d') : d'.Settled :=
  hd.moved h.moved fun _ hb _ => h.table ▸ hb

/-- A key goes off that no binding uses, or none does; others may go on. -/
theorem Settled.pressed (hd : d.Settled) {held : List Key} {reported : Flags}
    (hkeys : ∀ b ∈ d.table.bindings, b.isDown → b.kind = .state → ∀ j ∈ b.combo.keys,
      d.isPressed j → held.contains j || reported.has j) :
    Settled { d with held, reported } := by
  intro b hb hdown
  obtain ⟨hkind, hlive, hpressed⟩ := hd b hb hdown
  refine ⟨hkind, hlive, fun hstate => isFullyPressed_iff.mpr fun j hj => ?_⟩
  exact hkeys b hb hdown hstate j hj (isFullyPressed_iff.mp (hpressed hstate) j hj)

theorem Settled.edit (hd : d.Settled) (h : Edit d d') : d'.Settled := by
  cases h with
  | @insert b r modified h =>
    intro c hc hdown
    rcases (Table.mem_insert c).mp hc with rfl | hc
    · rw [Binding.isDown_iff, (ofRegistration?_eq_some h).2.1] at hdown
      cases hdown
    · exact hd c hc hdown
  | @delete b modified h => exact fun c hc hdown => hd c (List.mem_of_mem_eraseP hc) hdown
  | putDown modified shipped => exact hd

theorem Settled.edited (hd : d.Settled) (h : Edited d d') : d'.Settled := by
  induction h with
  | refl => exact hd
  | tail _ h ih => exact ih.edit h

/-! ### Releases -/

theorem settled_releaseAll (hs : d.Sound) (hd : d.Settled) (ids : List Nat) :
    (ids.foldl releaseBinding d).Settled :=
  hd.moved (moved_releaseAll ids d) fun _ hb hdown => (down_releaseAll hs.distinct hb hdown).1

/-- After its release no binding that is down uses a key, unless it is a toggle. -/
theorem settled_releaseKey (hs : d.Sound) (hd : d.Settled) (k : Key) :
    (releaseKey k d).2.Settled ∧ (releaseKey k d).2.Unused k := by
  refine ⟨settled_releaseAll hs hd _, ?_⟩
  intro b hb hdown hstate hk
  obtain ⟨hmem, htoggle⟩ := down_releaseAll hs.distinct hb hdown
  obtain ⟨-, hlive, hpressed⟩ := hd b hmem hdown
  have hreleased : b.kind = .toggle := by
    refine htoggle (List.mem_map_of_mem (List.mem_filter.mpr ⟨hmem, ?_⟩))
    simp [hlive, hk, hpressed hstate]
  rw [hstate] at hreleased
  cases hreleased

theorem contains_iff {combo : Combo} : combo.contains k ↔ k ∈ combo.keys := by
  simp [Combo.contains]

theorem settled_takeFlag (hs : d.Sound) (hd : d.Settled) (flags : Flags) (hk : k ∈ Flags.keys) :
    (takeFlag flags k d).2.Settled := by
  unfold takeFlag
  split_ifs with hsame hoff
  · exact hd
  · obtain ⟨hrest, hunused⟩ := settled_releaseKey hs hd k
    refine hrest.pressed fun b hb hdown hstate j hj hpressed => ?_
    have hne : j ≠ k := by
      rintro rfl
      exact hunused b hb hdown hstate (contains_iff.mpr hj)
    rw [Flags.has_set hk, if_neg hne]
    exact hpressed
  · refine hd.pressed fun b hb hdown hstate j hj hpressed => ?_
    rw [Flags.has_set hk]
    split_ifs with hjk
    · subst hjk
      cases hflag : flags.has j with
      | true => simp
      | false => simpa [hflag] using hoff
    · exact hpressed

theorem settled_takeFlags (hs : d.Sound) (hd : d.Settled) (flags : Flags) :
    (takeFlags flags d).2.Settled := by
  suffices ∀ ks : List Key, ks ⊆ Flags.keys →
      (ks.foldl (fun d k => (takeFlag flags k d).2) d).Settled from this Flags.keys (List.Subset.refl _)
  intro ks
  induction ks generalizing d with
  | nil => exact fun _ => hd
  | cons k ks ih =>
    intro hks
    obtain ⟨hk, hks⟩ := List.cons_subset.mp hks
    exact ih (hs.keyed (keyed_alongReleases.takeFlag flags k d)) (settled_takeFlag hs hd flags hk) hks

/-! ### Key events -/

theorem settled_struck (hs : d.Sound) (hd : d.Settled) (e : Event) : (struck e d).Settled := by
  refine (settled_takeFlags hs hd e.flags).pressed fun b hb hdown hstate j hj hpressed => ?_
  unfold isPressed at hpressed
  split_ifs
  · exact hpressed
  · rw [List.contains_cons, Bool.or_assoc, hpressed, Bool.or_true]

/-- A key is let go: what uses it is released, and then it is held no more. -/
def unheld (k : Key) (d : Dispatcher) : Dispatcher :=
  let d := (releaseKey k d).2
  { d with held := d.held.filter (· ≠ k) }

theorem keyed_unheld (k : Key) (d : Dispatcher) : Keyed d (unheld k d) :=
  (moved_releaseKey k d).keyed.trans (.press _ _ _)

theorem settled_unheld (hs : d.Sound) (hd : d.Settled) (k : Key) : (unheld k d).Settled := by
  obtain ⟨hreleased, hunused⟩ := settled_releaseKey hs hd k
  refine hreleased.pressed fun b hb hdown hstate j hj hpressed => ?_
  have hne : j ≠ k := by
    rintro rfl
    exact hunused b hb hdown hstate (contains_iff.mpr hj)
  unfold isPressed at hpressed
  simpa [hne] using hpressed

theorem settled_lifted (hs : d.Sound) (hd : d.Settled) (e : Event) : (lifted e d).Settled :=
  settled_takeFlags (hs.keyed (keyed_unheld e.key d)) (settled_unheld hs hd e.key) e.flags

/-- What is pressed can fire and is fully pressed. -/
theorem mem_pressed_matching (hid : id ∈ (d.matching k).pressed) :
    ∃ b ∈ d.table.bindings, b.id = id ∧ d.isEligible b ∧ d.isFullyPressed b.combo := by
  suffices ∀ (bs : List Binding) (m : Matching), id ∈ (bs.foldl (Matching.step d k) m).pressed →
      id ∈ m.pressed ∨ ∃ b ∈ bs, b.id = id ∧ d.isEligible b ∧ d.isFullyPressed b.combo by
    simpa using this d.table.bindings {} hid
  intro bs
  induction bs with
  | nil => exact fun m hid => .inl hid
  | cons b bs ih =>
    intro m hid
    rcases ih _ hid with hid | ⟨c, hc, hrest⟩
    · have hstep : id ∈ m.pressed ∨ id = b.id ∧ d.isEligible b ∧ d.isFullyPressed b.combo := by
        unfold Matching.step at hid
        split_ifs at hid with hout
        all_goals simp_all
      rcases hstep with hid | ⟨rfl, hb⟩
      · exact .inl hid
      · exact .inr ⟨b, List.mem_cons_self, rfl, hb⟩
    · exact .inr ⟨c, List.mem_cons_of_mem b hc, hrest⟩

theorem settled_pressAll {uiOnly isRepeat : Bool} {ids : List Nat} (hs : d.Sound) (hd : d.Settled)
    (hids : ∀ b ∈ d.table.bindings, b.id ∈ ids → d.isEligible b ∧ d.isFullyPressed b.combo) :
    (pressAll uiOnly isRepeat ids d).Settled := by
  have hmoved := moved_pressAll uiOnly isRepeat ids d
  intro b hb hdown
  refine hmoved.justified ?_
  rcases down_pressAll hs.distinct hb hdown with hb | ⟨c, hc, hid, hkind, rfl⟩
  · exact hd b hb hdown
  · obtain ⟨hlive, hpressed⟩ := hids c hc hid
    refine ⟨hkind, ?_, fun _ => hpressed⟩
    simpa [isEligible, hkind] using hlive

theorem settled_fired (hs : d.Sound) (hd : d.Settled) (e : Event) : (fired e d).Settled := by
  have hstart : ∀ uiOnly d', Moved d d' → d'.Settled →
      (pressAll uiOnly e.isRepeat (d.matching e.key).pressed d').Settled := by
    intro uiOnly d' hmoved hd'
    refine settled_pressAll (hs.moved hmoved) hd' fun b hb hid => ?_
    obtain ⟨c, hc, hcid, hlive, hpressed⟩ := mem_pressed_matching hid
    obtain ⟨c', hc', heq⟩ := hmoved.alike.exists_mem hb
    have hids : c'.id = b.id := (congrArg Binding.id heq :)
    obtain rfl : c' = c := hs.distinct.eq_of_id hc' hc (hids.trans hcid.symm)
    have hcombo : c'.combo = b.combo := (congrArg Binding.combo heq :)
    have hkind : c'.kind = b.kind := (congrArg Binding.kind heq :)
    have hfunction : c'.function = b.function := (congrArg Binding.function heq :)
    refine ⟨?_, by rw [hmoved.isFullyPressed, ← hcombo]; exact hpressed⟩
    unfold isEligible at hlive ⊢
    rw [hmoved.contexts, ← hkind, ← hfunction]
    exact hlive
  have hreleased := settled_releaseAll hs hd (d.matching e.key).released
  have hmoved := moved_releaseAll (d.matching e.key).released d
  unfold fired
  simp only
  split
  · have hfocus := relayed_offerFocus ((d.matching e.key).released.foldl releaseBinding d)
    exact hstart _ _ (hmoved.trans hfocus.moved) (hreleased.relayed hfocus)
  · exact hstart _ _ hmoved hreleased

theorem Settled.keyDown (hs : d.Sound) (hd : d.Settled) (e : Event) : (keyDown e d).2.Settled := by
  have hasked := relayed_askHook e (pressKind e) d
  have hs' := hs.moved hasked.moved
  rcases keyDown_cases e d with h | h | h <;> rw [h]
  · exact hd
  · exact hd.relayed hasked
  · exact settled_fired (hs'.keyed (keyed_struck e _)) (settled_struck hs' (hd.relayed hasked) e) e

theorem Settled.keyUp (hs : d.Sound) (hd : d.Settled) (e : Event) : (keyUp e d).2.Settled := by
  have hasked := relayed_askHook e .up d
  rcases keyUp_cases e d with h | h
  · rw [h]
    exact hd
  · exact (settled_lifted (hs.moved hasked.moved) (hd.relayed hasked) e).relayed h

/-! ### Contexts -/

/-- The contexts have changed and nothing else; whatever is down is still live. -/
theorem Settled.contexts (hd : d.Settled) {contexts : Contexts}
    (hlive : ∀ f, d.contexts.isLive f → contexts.isLive f) : Settled { d with contexts } := by
  intro b hb hdown
  obtain ⟨hkind, hb', hpressed⟩ := hd b hb hdown
  exact ⟨hkind, hlive b.function hb', hpressed⟩

theorem Settled.setActiveContext {name : String} (hs : d.Sound) (hd : d.Settled)
    (h : setActiveContext name d = .ok d') : d'.Settled := by
  obtain ⟨hname, ⟨-, rfl⟩ | ⟨hnone, rfl⟩ | ⟨old, hold, rfl⟩⟩ := setActiveContext_eq_ok h
  · exact hd
  · -- without an active context nothing is live, so nothing is down
    refine hd.contexts fun f hf => ?_
    obtain ⟨a, ha, -⟩ := Contexts.isLive_iff.mp hf
    rw [hnone] at ha
    cases ha
  · have hmoved := moved_raiseAll (dropped old name (activated name d)) (activated name d)
    intro b hb hdown
    obtain ⟨hmem, hkept⟩ := down_raiseAll (hs.activated hname).distinct hb hdown
    obtain ⟨hkind, hlive, hpressed⟩ := hd b hmem hdown
    refine hmoved.justified ⟨hkind, ?_, hpressed⟩
    by_contra hgone
    exact hkept ((mem_dropped hs.distinct hold hmem).mpr ⟨hdown, hlive, hgone⟩)

end KeyConsole.Dispatch.Dispatcher
