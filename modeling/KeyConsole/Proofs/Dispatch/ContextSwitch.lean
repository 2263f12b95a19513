import KeyConsole.Proofs.Dispatch.Editing

/-!
# Proofs.Dispatch.ContextSwitch: what a switch of the active context does

A switch makes the context active.  If another one was so before, the bindings that are down and whose
functions are live in the old context only are released, in table order.
-/

namespace KeyConsole.Dispatch.Dispatcher

variable {d d' : Dispatcher}

/-- The bindings that are down and live in one context but not in another. -/
def dropped (old new : String) (d : Dispatcher) : List Nat :=
  let kept := d.contexts.functionsOf new
  let dropped := (d.contexts.functionsOf old).filter (!kept.contains ·)
  (d.table.bindings.filter fun b => b.isDown && dropped.contains b.function).map (·.id)

/-- The context with a name is active, and nothing else has happened. -/
def activated (name : String) (d : Dispatcher) : Dispatcher :=
  { d with contexts := { d.contexts with active := some name } }

/-- A switch of the context changes nothing, or makes the context active, or also releases what is no longer
live. -/
theorem setActiveContext_eq_ok {name : String} (h : setActiveContext name d = .ok d') :
    d.contexts.has name ∧
      (d.contexts.active = some name ∧ d' = d ∨ d.contexts.active = none ∧ d' = activated name d ∨
        ∃ old, d.contexts.active = some old ∧ d' = (dropped old name (activated name d)).foldl
          (fun d id => (setState id .up false d).2) (activated name d)) := by
  unfold setActiveContext at h
  cases hset : d.contexts.setActive name with
  | error fault =>
    rw [hset] at h
    cases h
  | ok p =>
    obtain ⟨change, contexts⟩ := p
    rw [hset] at h
    obtain ⟨hname, ⟨hactive, rfl, rfl⟩ | ⟨hactive, rfl, rfl⟩⟩ := Contexts.setActive_eq_ok hset
    · exact ⟨hname, .inl ⟨hactive, (Except.ok.inj h).symm⟩⟩
    · refine ⟨hname, .inr ?_⟩
      cases hold : d.contexts.active with
      | none =>
        rw [hold] at h
        exact .inl ⟨rfl, (Except.ok.inj h).symm⟩
      | some old =>
        rw [hold] at h
        exact .inr ⟨old, rfl, (Except.ok.inj h).symm⟩

/-- What a switch releases is down, and live before but not afterwards. -/
theorem mem_dropped (hd : d.table.Distinct) {old name : String} (hold : d.contexts.active = some old) {b : Binding}
    (hb : b ∈ d.table.bindings) : b.id ∈ dropped old name (activated name d) ↔
      b.isDown ∧ d.contexts.isLive b.function ∧ ¬(activated name d).contexts.isLive b.function := by
  have hlive : d.contexts.isLive b.function ↔ b.function ∈ (activated name d).contexts.functionsOf old := by
    have hsame : (activated name d).contexts.isLiveIn old b.function = d.contexts.isLiveIn old b.function := by
      unfold Contexts.isLiveIn activated
      rw [Contexts.ancestry_active d.contexts.contexts (some name) d.contexts.active]
    rw [Contexts.isLive_iff, Contexts.mem_functionsOf, hsame, hold]
    simp
  have hkept : (activated name d).contexts.isLive b.function ↔
      b.function ∈ (activated name d).contexts.functionsOf name := by
    rw [Contexts.isLive_iff, Contexts.mem_functionsOf]
    simp [activated]
  have hmem : b.id ∈ dropped old name (activated name d) ↔ b ∈ d.table.bindings.filter fun b => b.isDown &&
      (((activated name d).contexts.functionsOf old).filter
        (!((activated name d).contexts.functionsOf name).contains ·)).contains b.function := by
    refine ⟨fun h => ?_, List.mem_map_of_mem⟩
    obtain ⟨c, hc, hid⟩ := List.mem_map.mp h
    obtain rfl : c = b := hd.eq_of_id (List.mem_filter.mp hc).1 hb hid
    exact hc
  rw [hmem, List.mem_filter, hlive, hkept]
  simp [hb]

theorem moved_raiseAll (ids : List Nat) (d : Dispatcher) :
    Moved d (ids.foldl (fun d id => (setState id .up false d).2) d) := by
  induction ids generalizing d with
  | nil => exact .refl d
  | cons id ids ih => exact (moved_setState id .up false d).trans (ih _)

theorem alike_setActiveContext {name : String} (h : setActiveContext name d = .ok d') : d.table.Alike d'.table := by
  obtain ⟨-, ⟨-, rfl⟩ | ⟨-, rfl⟩ | ⟨old, -, rfl⟩⟩ := setActiveContext_eq_ok h
  · exact .refl _
  · exact .refl _
  · exact (moved_raiseAll _ _).alike

theorem down_raiseAll {ids : List Nat} (hd : d.table.Distinct) {x : Binding}
    (hx : x ∈ (ids.foldl (fun d id => (setState id .up false d).2) d).table.bindings) (hdown : x.isDown) :
    x ∈ d.table.bindings ∧ x.id ∉ ids := by
  induction ids generalizing d with
  | nil => exact ⟨hx, List.not_mem_nil⟩
  | cons id ids ih =>
    obtain ⟨hmem, hrest⟩ := ih ((moved_setState id .up false d).alike.distinct hd) hx
    obtain ⟨hmem, hfirst⟩ := down_setState_up hd hmem hdown
    exact ⟨hmem, by simp [hfirst, hrest]⟩

theorem Sound.activated {name : String} (hs : d.Sound) (hname : d.contexts.has name) :
    (activated name d).Sound :=
  ⟨hs.distinct, hs.fresh, hs.packed, hs.tree.planted, by rintro a ⟨⟩; exact hname⟩

theorem Sound.setActiveContext {name : String} (hs : d.Sound) (h : setActiveContext name d = .ok d') :
    d'.Sound := by
  obtain ⟨hname, ⟨-, rfl⟩ | ⟨-, rfl⟩ | ⟨old, -, rfl⟩⟩ := setActiveContext_eq_ok h
  · exact hs
  · exact hs.activated hname
  · exact (hs.activated hname).moved (moved_raiseAll _ _)

end KeyConsole.Dispatch.Dispatcher
