import KeyConsole.Proofs.Dispatch.Delivery

/-!
# Proofs.Dispatch.KeyEvents: the stages of a key event

A press is shown to the hook; then its flags and its key are taken over, and what it finds is released and
pressed.  A release lets go what used the key before the key and the flags go off.
-/

namespace KeyConsole.Keyboard.Flags

theorem has_set {k : Key} (hk : k ∈ keys) (f : Flags) (on : Bool) (j : Key) :
    (f.set k on).has j = if j = k then on else f.has j := by
  simp only [keys, List.mem_cons, List.not_mem_nil, or_false] at hk
  by_cases hj : j ∈ keys
  · simp only [keys, List.mem_cons, List.not_mem_nil, or_false] at hj
    rcases hk with rfl | rfl | rfl | rfl <;> rcases hj with rfl | rfl | rfl | rfl <;> rfl
  · have hnone : ∀ g : Flags, g.has j = false := by
      intro g
      simp only [keys, List.mem_cons, List.not_mem_nil, or_false, not_or] at hj
      unfold has
      split <;> simp_all
    have hne : j ≠ k := by
      rintro rfl
      exact hj (by simpa [keys] using hk)
    rw [hnone, hnone, if_neg hne]

theorem has_none (k : Key) : has {} k = false := by
  unfold has
  split <;> rfl

end KeyConsole.Keyboard.Flags

namespace KeyConsole.Dispatch.Dispatcher

open Keyboard (Key Event EventKind Flags)

/-! ### Stages -/

@[simp] theorem key_askHook (e : Event) (kind : EventKind) (d : Dispatcher) :
    (askHook e kind d).1.key = e.key := by
  unfold askHook
  cases d.hook <;> rfl

@[simp] theorem flags_askHook (e : Event) (kind : EventKind) (d : Dispatcher) :
    (askHook e kind d).1.flags = e.flags := by
  unfold askHook
  cases d.hook <;> rfl

@[simp] theorem isRepeat_askHook (e : Event) (kind : EventKind) (d : Dispatcher) :
    (askHook e kind d).1.isRepeat = e.isRepeat := by
  unfold askHook
  cases d.hook <;> rfl

/-- What kind of event a press is. -/
def pressKind (e : Event) : EventKind := if e.isRepeat then .repeat else .down

/-- The flags and the key of a press are taken over. -/
def struck (e : Event) (d : Dispatcher) : Dispatcher :=
  let d := (takeFlags e.flags d).2
  { d with held := if d.held.contains e.key then d.held else e.key :: d.held }

/-- What a press has found is released and pressed. -/
def fired (e : Event) (d : Dispatcher) : Dispatcher :=
  let m := d.matching e.key
  let d := m.released.foldl releaseBinding d
  let (uiOnly, d) := if m.canFocus then offerFocus d else (false, d)
  pressAll uiOnly e.isRepeat m.pressed d

/-- The flags and the key of a release are taken over, once what used the key has been released. -/
def lifted (e : Event) (d : Dispatcher) : Dispatcher :=
  let d := (releaseKey e.key d).2
  (takeFlags e.flags { d with held := d.held.filter (· ≠ e.key) }).2

theorem keyDown_eq (e : Event) (d : Dispatcher) :
    (keyDown e d).2 = if !d.enabled || e.key = .unknown then d
      else if (askHook e (pressKind e) d).1.handled then (askHook e (pressKind e) d).2
      else fired e (struck e (askHook e (pressKind e) d).2) := by
  have hstages : keyDown e d = if !d.enabled || e.key = .unknown then (e, d) else
      let p := askHook e (pressKind e) d
      if p.1.handled then p else (p.1, fired p.1 (struck p.1 p.2)) := rfl
  have hstruck : struck (askHook e (pressKind e) d).1 = struck e := by
    unfold struck
    rw [key_askHook, flags_askHook]
  have hfired : fired (askHook e (pressKind e) d).1 = fired e := by
    unfold fired
    rw [key_askHook, isRepeat_askHook]
  rw [hstages]
  simp only
  split_ifs
  · rfl
  · rfl
  · rw [hstruck, hfired]

/-- A press is passed over, or kept by the hook, or it is taken over and fires. -/
theorem keyDown_cases (e : Event) (d : Dispatcher) :
    (keyDown e d).2 = d ∨ (keyDown e d).2 = (askHook e (pressKind e) d).2 ∨
      (keyDown e d).2 = fired e (struck e (askHook e (pressKind e) d).2) := by
  rw [keyDown_eq]
  split_ifs
  · exact .inl rfl
  · exact .inr (.inl rfl)
  · exact .inr (.inr rfl)

/-- The release of a key is taken over, and the user interface may hear of it. -/
theorem relayed_keyUp {e : Event} (h : e.key ≠ .unknown) (d : Dispatcher) :
    Relayed (lifted e (askHook e .up d).2) (keyUp e d).2 := by
  unfold keyUp
  rw [if_neg h]
  simp only [key_askHook, flags_askHook]
  split
  · exact .note rfl _
  · exact .refl _

/-- A release is passed over, or it is taken over, and the user interface may hear of it. -/
theorem keyUp_cases (e : Event) (d : Dispatcher) :
    (keyUp e d).2 = d ∨ Relayed (lifted e (askHook e .up d).2) (keyUp e d).2 := by
  by_cases h : e.key = .unknown
  · refine .inl ?_
    unfold keyUp
    rw [if_pos h]
  · exact .inr (relayed_keyUp h d)

theorem takeFlags_eq_foldl (flags : Flags) (d : Dispatcher) :
    (takeFlags flags d).2 = Flags.keys.foldl (fun d k => (takeFlag flags k d).2) d := rfl

/-! ### Releases -/

/-- A relation that holds of telling, of keys and flags that go on or off and of the release of a binding, and of
rows of what it holds of.  So it holds of all that is released. -/
structure AlongReleases (R : Dispatcher → Dispatcher → Prop) : Prop where
  trans : ∀ {d d' d''}, R d d' → R d' d'' → R d d''
  relayed : ∀ {d d'}, Relayed d d' → R d d'
  pressed : ∀ d held reported, R d { d with held, reported }
  released : ∀ d id, R d (d.releaseBinding id)

namespace AlongReleases

variable {R : Dispatcher → Dispatcher → Prop} (hR : AlongReleases R)
include hR

theorem refl (d : Dispatcher) : R d d := hR.relayed (.refl d)

theorem foldl {α : Type} {f : Dispatcher → α → Dispatcher} (h : ∀ d x, R d (f d x)) (xs : List α)
    (d : Dispatcher) : R d (xs.foldl f d) := by
  induction xs generalizing d with
  | nil => exact hR.refl d
  | cons x xs ih => exact hR.trans (h d x) (ih _)

theorem releaseKey (k : Key) (d : Dispatcher) : R d (d.releaseKey k).2 := hR.foldl hR.released _ d

theorem takeFlag (flags : Flags) (k : Key) (d : Dispatcher) : R d (d.takeFlag flags k).2 := by
  unfold Dispatcher.takeFlag
  split_ifs
  · exact hR.refl d
  · exact hR.trans (hR.releaseKey k d) (hR.pressed _ _ _)
  · exact hR.pressed _ _ _

theorem takeFlags (flags : Flags) (d : Dispatcher) : R d (d.takeFlags flags).2 := by
  rw [takeFlags_eq_foldl]
  exact hR.foldl (fun d k => hR.takeFlag flags k d) _ d

theorem askHook (e : Event) (kind : EventKind) (d : Dispatcher) : R d (d.askHook e kind).2 :=
  hR.relayed (relayed_askHook e kind d)

theorem struck (e : Event) (d : Dispatcher) : R d (d.struck e) :=
  hR.trans (hR.takeFlags e.flags d) (hR.pressed _ _ _)

theorem keyUp (e : Event) (d : Dispatcher) : R d (d.keyUp e).2 := by
  rcases keyUp_cases e d with h | h
  · rw [h]
    exact hR.refl d
  · have hlifted : ∀ d, R d (d.lifted e) := fun d =>
      hR.trans (hR.trans (hR.releaseKey e.key d) (hR.pressed _ _ _)) (hR.takeFlags e.flags _)
    exact hR.trans (hR.trans (hR.askHook e .up d) (hlifted _)) (hR.relayed h)

end AlongReleases

/-! ### Changes of state -/

/-- A relation that holds of telling, of keys and flags that go on or off and of every change of state, and of rows
of what it holds of.  So it holds of all that a key event does. -/
structure AlongChanges (R : Dispatcher → Dispatcher → Prop) : Prop where
  trans : ∀ {d d' d''}, R d d' → R d' d'' → R d d''
  relayed : ∀ {d d'}, Relayed d d' → R d d'
  pressed : ∀ d held reported, R d { d with held, reported }
  changed : ∀ d id state uiOnly, R d (d.setState id state uiOnly).2

namespace AlongChanges

variable {R : Dispatcher → Dispatcher → Prop} (hR : AlongChanges R)
include hR

theorem refl (d : Dispatcher) : R d d := hR.relayed (.refl d)

theorem alongReleases : AlongReleases R where
  trans := hR.trans
  relayed := hR.relayed
  pressed := hR.pressed
  released d id := by
    unfold releaseBinding
    split
    · exact hR.refl d
    · split
      · exact hR.refl d
      · exact hR.changed d id .up false

theorem raiseAll (ids : List Nat) (d : Dispatcher) :
    R d (ids.foldl (fun d id => (Dispatcher.setState id .up false d).2) d) :=
  hR.alongReleases.foldl (fun d id => hR.changed d id .up false) ids d

theorem pressBinding (uiOnly isRepeat : Bool) (id : Nat) (d : Dispatcher) :
    R d (d.pressBinding uiOnly isRepeat id).2 := by
  unfold Dispatcher.pressBinding
  split
  · exact hR.refl d
  · split_ifs
    all_goals first
      | exact hR.refl d
      | exact hR.changed d id _ _

theorem pressAll (uiOnly isRepeat : Bool) (ids : List Nat) (d : Dispatcher) :
    R d (d.pressAll uiOnly isRepeat ids) := by
  induction ids generalizing d with
  | nil => exact hR.refl d
  | cons id ids ih =>
    rw [pressAll_cons]
    split
    · exact hR.pressBinding _ _ _ d
    · exact hR.trans (hR.pressBinding _ _ _ d) (ih _)

theorem fired (e : Event) (d : Dispatcher) : R d (d.fired e) := by
  have hreleased := hR.alongReleases.foldl hR.alongReleases.released (d.matching e.key).released d
  unfold Dispatcher.fired
  simp only
  split
  · exact hR.trans (hR.trans hreleased (hR.relayed (relayed_offerFocus _))) (hR.pressAll _ _ _ _)
  · exact hR.trans hreleased (hR.pressAll _ _ _ _)

theorem keyDown (e : Event) (d : Dispatcher) : R d (d.keyDown e).2 := by
  rcases keyDown_cases e d with h | h | h <;> rw [h]
  · exact hR.refl d
  · exact hR.alongReleases.askHook e _ d
  · exact hR.trans (hR.trans (hR.alongReleases.askHook e _ d) (hR.alongReleases.struck e _)) (hR.fired e _)

theorem keyUp (e : Event) (d : Dispatcher) : R d (d.keyUp e).2 := hR.alongReleases.keyUp e d

end AlongChanges

/-! ### Keys -/

theorem keyed_alongChanges : AlongChanges Keyed where
  trans := Keyed.trans
  relayed h := h.moved.keyed
  pressed := .press
  changed d id state uiOnly := (moved_setState id state uiOnly d).keyed

theorem keyed_alongReleases : AlongReleases Keyed := keyed_alongChanges.alongReleases

theorem keyed_struck (e : Event) (d : Dispatcher) : Keyed d (struck e d) := keyed_alongReleases.struck e d

theorem keyed_keyDown (e : Event) (d : Dispatcher) : Keyed d (keyDown e d).2 := keyed_alongChanges.keyDown e d

theorem keyed_keyUp (e : Event) (d : Dispatcher) : Keyed d (keyUp e d).2 := keyed_alongChanges.keyUp e d

end KeyConsole.Dispatch.Dispatcher
