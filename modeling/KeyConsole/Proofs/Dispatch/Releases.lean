import KeyConsole.Proofs.Dispatch.KeyTransitions
import KeyConsole.Proofs.Dispatch.Selection

/-!
# Proofs.Dispatch.Releases: what is released is told once

Key events and switches of the context release first and press afterwards, and a press is offered to a binding
once at most.  So among the transitions of a binding all are to up but for a last one.
-/

namespace KeyConsole.Dispatch.Dispatcher

open Keyboard (Combo Event)

/-- What the transitions of a binding can be. -/
abbrev Row := Nat → List (BindingState × BindingState) → Prop

variable {P Q R : Row} {id : Nat} {ids : List Nat} {m : Combo} {b : Binding}
  {d d' d'' : Dispatcher}

/-! ### Rows of transitions -/

/-- On the way from one dispatcher to another, the transitions that are told of each binding have a property. -/
def Tells (P : Row) (d d' : Dispatcher) : Prop :=
  ∃ ns, d'.journal = d.journal ++ ns ∧ ∀ id, P id (changes id ns)

namespace Tells

theorem relayed (h : Relayed d d') (hP : ∀ id, P id []) : Tells P d d' := by
  obtain ⟨ns, hns, hrelay⟩ := h.told
  exact ⟨ns, hns, fun id => changes_relayed hrelay ▸ hP id⟩

theorem quiet (h : d'.journal = d.journal) (hP : ∀ id, P id []) : Tells P d d' :=
  ⟨[], by rw [h, List.append_nil], hP⟩

theorem trans (h : Tells P d d') (h' : Tells Q d' d'')
    (hR : ∀ id xs ys, P id xs → Q id ys → R id (xs ++ ys)) : Tells R d d'' := by
  obtain ⟨ns, hns, hP⟩ := h
  obtain ⟨ns', hns', hQ⟩ := h'
  refine ⟨ns ++ ns', by rw [hns', hns, List.append_assoc], fun id => ?_⟩
  rw [changes_append]
  exact hR id _ _ (hP id) (hQ id)

theorem mono (h : Tells P d d') (hQ : ∀ id xs, P id xs → Q id xs) : Tells Q d d' := by
  obtain ⟨ns, hns, hP⟩ := h
  exact ⟨ns, hns, fun id => hQ id _ (hP id)⟩

end Tells

/-- A change of state is told of the one binding, if it is told at all. -/
theorem tells_setState (id : Nat) (state : BindingState) (uiOnly : Bool) (d : Dispatcher) :
    Tells (fun other cs => cs = [] ∨ other = id ∧ ∃ before, cs = [(before, state)]) d
      (setState id state uiOnly d).2 := by
  cases h : d.table.get? id with
  | none =>
    rw [setState_none h]
    exact .quiet rfl fun _ => .inl rfl
  | some b =>
    by_cases hkind : b.kind = .command ∧ state = .down
    · obtain ⟨hkind, rfl⟩ := hkind
      rw [setState_command h hkind]
      exact .quiet rfl fun _ => .inl rfl
    · have hrelayed : Relayed _ (setState id state uiOnly d).2 := relayed_setState h hkind
      obtain ⟨ns, hns, hrelay⟩ := hrelayed.told
      refine ⟨.transition id b.state state :: ns, by rw [hns]; simp [note], fun other => ?_⟩
      rw [changes_transition, changes_relayed hrelay]
      split
      · rename_i hid
        exact .inr ⟨hid.symm, b.state, rfl⟩
      · exact .inl rfl

/-! ### Releases -/

/-- All transitions are to up. -/
def allUp : Row := fun _ cs => ∀ c ∈ cs, c.2 = .up

theorem allUp_nil (id : Nat) : allUp id [] := by simp [allUp]

theorem allUp_append {xs ys : List (BindingState × BindingState)} (h : allUp id xs) (h' : allUp id ys) :
    allUp id (xs ++ ys) := by
  intro c hc
  rcases List.mem_append.mp hc with hc | hc
  · exact h c hc
  · exact h' c hc

theorem Tells.release (h : Tells allUp d d') (h' : Tells allUp d' d'') : Tells allUp d d'' :=
  h.trans h' fun _ _ _ => allUp_append

theorem releases_setState_up (id : Nat) (uiOnly : Bool) (d : Dispatcher) :
    Tells allUp d (setState id .up uiOnly d).2 := by
  refine (tells_setState id .up uiOnly d).mono fun other cs hcs => ?_
  rcases hcs with rfl | ⟨-, before, rfl⟩
  · exact allUp_nil other
  · intro c hc
    rw [List.mem_singleton.mp hc]

theorem releases_releaseBinding (d : Dispatcher) (id : Nat) : Tells allUp d (d.releaseBinding id) := by
  unfold releaseBinding
  split
  · exact .quiet rfl allUp_nil
  · split
    · exact .quiet rfl allUp_nil
    · exact releases_setState_up _ _ d

theorem releases_alongReleases : AlongReleases (Tells allUp) where
  trans := Tells.release
  relayed h := .relayed h allUp_nil
  pressed _ _ _ := .quiet rfl allUp_nil
  released := releases_releaseBinding

theorem releases_setActiveContext {name : String} (h : setActiveContext name d = .ok d') :
    Tells allUp d d' := by
  have hactivated : Tells allUp d (activated name d) := .quiet rfl allUp_nil
  obtain ⟨-, ⟨-, rfl⟩ | ⟨-, rfl⟩ | ⟨old, -, rfl⟩⟩ := setActiveContext_eq_ok h
  · exact .quiet rfl allUp_nil
  · exact hactivated
  · exact hactivated.release (releases_alongReleases.foldl (fun d id => releases_setState_up id false d) _ _)

/-! ### Presses -/

theorem tells_pressBinding (uiOnly isRepeat : Bool) (id : Nat) (d : Dispatcher) :
    Tells (fun other cs => cs.length ≤ if other = id then 1 else 0) d (pressBinding uiOnly isRepeat id d).2 := by
  have hset : ∀ state uiOnly, Tells (fun other cs => cs.length ≤ if other = id then 1 else 0) d
      (setState id state uiOnly d).2 := by
    intro state uiOnly
    refine (tells_setState id state uiOnly d).mono fun other cs hcs => ?_
    rcases hcs with rfl | ⟨rfl, before, rfl⟩
    · exact Nat.zero_le _
    · rw [if_pos rfl]
      exact Nat.le_refl 1
  have hnone : Tells (fun other cs => cs.length ≤ if other = id then 1 else 0) d d :=
    .quiet rfl fun _ => Nat.zero_le _
  unfold pressBinding
  split
  · exact hnone
  · split_ifs
    all_goals first
      | exact hnone
      | exact hset _ _

/-- A press that is offered to different bindings is told of each once at most, and of no other. -/
theorem tells_pressAll (uiOnly isRepeat : Bool) (hids : ids.Nodup) (d : Dispatcher) :
    Tells (fun other cs => cs.length ≤ if other ∈ ids then 1 else 0) d (pressAll uiOnly isRepeat ids d) := by
  induction ids generalizing d with
  | nil => exact .quiet rfl fun _ => Nat.zero_le _
  | cons id ids ih =>
    obtain ⟨hnot, hids⟩ := List.nodup_cons.mp hids
    have hfirst := tells_pressBinding uiOnly isRepeat id d
    rw [pressAll_cons]
    split
    · refine hfirst.mono fun other cs hcs => hcs.trans ?_
      by_cases hother : other = id <;> simp [hother]
    · refine hfirst.trans (ih hids _) fun other xs ys hxs hys => ?_
      rw [List.length_append]
      by_cases hother : other = id
      · subst hother
        rw [if_pos rfl] at hxs
        rw [if_neg hnot] at hys
        rw [if_pos List.mem_cons_self]
        omega
      · rw [if_neg hother] at hxs
        simp only [List.mem_cons, hother, false_or]
        omega

theorem nodup_offered (hd : d.table.Distinct) (m : Combo) : ((d.offered m).map (·.id)).Nodup := by
  have hready : (d.ready.map (·.id)).Nodup := hd.sublist (List.filter_sublist.map _)
  have hchosen : ((d.chosen m).map (·.id)).Nodup := hready.sublist (List.filter_sublist.map _)
  have hcovered : ((d.covered m).map (·.id)).Nodup :=
    hready.sublist ((List.filter_sublist.trans (List.dropWhile_sublist _)).map _)
  unfold offered
  split
  · rw [List.map_append, List.nodup_append]
    refine ⟨hchosen, hcovered, ?_⟩
    rintro _ hleft _ hright rfl
    obtain ⟨x, hx, rfl⟩ := List.mem_map.mp hleft
    obtain ⟨y, hy, hid⟩ := List.mem_map.mp hright
    obtain ⟨hxready, hcombo⟩ := List.mem_filter.mp hx
    obtain ⟨hyready, hother⟩ := List.mem_filter.mp hy
    obtain rfl := hd.eq_of_id (mem_ready.mp ((List.dropWhile_sublist _).subset hyready)).1
      (mem_ready.mp hxready).1 hid
    simp_all
  · rw [List.append_nil]
    exact hchosen

/-- All transitions are to up but for a last one. -/
def upBefore : Row := fun _ cs => ∃ xs ys, cs = xs ++ ys ∧ (∀ c ∈ xs, c.2 = .up) ∧ ys.length ≤ 1

theorem Tells.upBefore (h : Tells allUp d d') : Tells upBefore d d' :=
  h.mono fun _ cs hcs => ⟨cs, [], by simp, hcs, Nat.zero_le 1⟩

theorem tells_keyDown (hs : d.Sound) (hsorted : d.table.Sorted) (e : Event) :
    Tells upBefore d (keyDown e d).2 := by
  rcases keyDown_cases e d with h | h | h
  · exact .quiet (congrArg journal h) fun _ => ⟨[], [], rfl, by simp, by simp⟩
  · rw [h]
    exact (releases_alongReleases.askHook e _ d).upBefore
  · change (keyDown e d).2 = fired e (takenOver e d) at h
    have halike := alike_takenOver e d
    have htaken := releases_alongReleases.takenOver e d
    rw [h]
    cases hselected : (takenOver e d).selected? e.key with
    | none =>
      rw [fired_none hselected]
      exact htaken.upBefore
    | some m =>
      have hpressed := tells_pressAll (readied m (takenOver e d)).1 e.isRepeat
        (nodup_offered (halike.distinct hs.distinct) m) (readied m (takenOver e d)).2
      rw [fired_some (halike.sorted hsorted) hselected]
      refine (htaken.release (releases_alongReleases.readied m _)).trans hpressed fun id xs ys hxs hys => ?_
      refine ⟨xs, ys, rfl, hxs, hys.trans ?_⟩
      split
      · exact Nat.le_refl 1
      · exact Nat.zero_le 1

end KeyConsole.Dispatch.Dispatcher
