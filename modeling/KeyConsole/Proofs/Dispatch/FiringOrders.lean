import KeyConsole.Proofs.Dispatch.FreshOrders
import KeyConsole.Proofs.Dispatch.Placement

/-!
# Proofs.Dispatch.FiringOrders: who fires before whom

Owners say which other owners' binds come before or after their own.  The handlers of a function fire in the
order of their registration as far as that allows, in just this order if that allows no order at all.  Only the
binds of the function matter for this, and what they say about each other.
-/

namespace KeyConsole.Dispatch

open FiringOrder (Edge Acyclic IsOrder)

variable {binds others : List OwnedBind} {i j : Nat} {order : List Nat}

/-- The bind at a position has to fire before the one at another: the one says so of the other's owner. -/
def FiresBefore (binds : List OwnedBind) (i j : Nat) : Prop :=
  i ≠ j ∧ ∃ c b, binds[i]? = some c ∧ binds[j]? = some b ∧
    (c.owner ∈ b.bind.after ∨ b.owner ∈ c.bind.before)

/-- The positions of some binds in an order that heeds who has to fire before whom. -/
structure Heeds (binds : List OwnedBind) (order : List Nat) : Prop where
  perm : order.Perm (List.range binds.length)
  before : ∀ i j, FiresBefore binds i j → order.idxOf i < order.idxOf j

/-- Two binds of the same owner have the same handler and say the same about some owners. -/
structure OwnedBind.SameAmong (owners : List String) (b c : OwnedBind) : Prop where
  owner : b.owner = c.owner
  handler : b.bind.handler = c.bind.handler
  before : ∀ o ∈ owners, o ∈ b.bind.before ↔ o ∈ c.bind.before
  after : ∀ o ∈ owners, o ∈ b.bind.after ↔ o ∈ c.bind.after

/-! ### Edges -/

theorem mem_edgesFrom {c : OwnedBind} :
    j ∈ Registry.edgesFrom binds c i ↔
      i ≠ j ∧ ∃ b, binds[j]? = some b ∧ (c.owner ∈ b.bind.after ∨ b.owner ∈ c.bind.before) := by
  unfold Registry.edgesFrom
  rw [List.mem_flatMap]
  constructor
  · rintro ⟨⟨b, k⟩, hbk, hj⟩
    have hb : binds[k]? = some b := List.mk_mem_zipIdx_iff_getElem?.mp hbk
    by_cases hki : k = i
    · simp [hki] at hj
    · simp only [hki, if_false, List.mem_append] at hj
      rcases hj with hj | hj
      · split at hj
        · rename_i hafter
          obtain rfl := List.mem_singleton.mp hj
          exact ⟨Ne.symm hki, b, hb, .inl (List.contains_iff_mem.mp hafter)⟩
        · cases hj
      · split at hj
        · rename_i hbefore
          obtain rfl := List.mem_singleton.mp hj
          exact ⟨Ne.symm hki, b, hb, .inr (List.contains_iff_mem.mp hbefore)⟩
        · cases hj
  · rintro ⟨hij, b, hb, hsays⟩
    refine ⟨(b, j), List.mk_mem_zipIdx_iff_getElem?.mpr hb, ?_⟩
    simp only [Ne.symm hij, if_false, List.mem_append]
    rcases hsays with hafter | hbefore
    · exact .inl (by rw [if_pos (List.contains_iff_mem.mpr hafter)]; exact List.mem_singleton_self j)
    · exact .inr (by rw [if_pos (List.contains_iff_mem.mpr hbefore)]; exact List.mem_singleton_self j)

theorem length_edges : (Registry.edges binds).length = binds.length := by
  simp [Registry.edges]

/-- The edges say who has to fire before whom. -/
theorem edge_edges : Edge (Registry.edges binds) i j ↔ FiresBefore binds i j := by
  unfold Edge Registry.edges
  cases hc : binds[i]? with
  | none =>
    have hlength : binds.length ≤ i := List.getElem?_eq_none_iff.mp hc
    simp [List.getD_eq_getElem?_getD, hlength, FiresBefore]
  | some c => simp [List.getD_eq_getElem?_getD, hc, mem_edgesFrom, FiresBefore]

theorem closed_edges : FiringOrder.Closed (Registry.edges binds) := by
  intro i j hedge
  obtain ⟨-, c, b, -, hb, -⟩ := edge_edges.mp hedge
  rw [length_edges]
  exact (List.getElem?_eq_some_iff.mp hb).1

theorem edge_edges_eq : Edge (Registry.edges binds) = FiresBefore binds := by
  funext i j
  exact propext edge_edges

theorem acyclic_edges : Acyclic (Registry.edges binds) ↔ ∀ i, ¬Relation.TransGen (FiresBefore binds) i i := by
  unfold Acyclic
  rw [edge_edges_eq]

theorem isOrder_edges :
    IsOrder (Registry.edges binds) (List.range (Registry.edges binds).length) order ↔ Heeds binds order := by
  rw [length_edges]
  constructor
  · intro h
    refine ⟨h.perm, fun i j hij => ?_⟩
    obtain ⟨-, c, b, hc, hb, -⟩ := id hij
    have hmem : ∀ {k x}, binds[k]? = some x → k ∈ order := fun hk =>
      h.perm.mem_iff.mpr (List.mem_range.mpr (List.getElem?_eq_some_iff.mp hk).1)
    exact h.forward i (hmem hc) j (hmem hb) (edge_edges.mpr hij)
  · exact fun h => ⟨h.perm, fun i _ j _ hedge => h.before i j (edge_edges.mp hedge)⟩

/-! ### Orders -/

/-- Of two least orders each is the other. -/
theorem eq_of_least {o o' : List Nat} (h : o' = o ∨ List.Lex (· < ·) o o') (h' : o = o' ∨ List.Lex (· < ·) o' o) :
    o = o' := by
  rcases h with h | hless
  · exact h.symm
  · rcases h' with h' | hless'
    · exact h'
    · exact absurd hless' (List.lt_asymm hless)

/-- Handlers fire in the least order that heeds all constraints, or as they were registered if there is none. -/
theorem firing_spec (r : Registry) (function : String) :
    ((∀ i, ¬Relation.TransGen (FiresBefore (r.bindsFor function)) i i) →
      ∃ order, Heeds (r.bindsFor function) order ∧
        (∀ other, Heeds (r.bindsFor function) other → other = order ∨ List.Lex (· < ·) order other) ∧
        r.firing function = (order.filterMap ((r.bindsFor function)[·]?)).map (·.bind.handler)) ∧
    ((∃ i, Relation.TransGen (FiresBefore (r.bindsFor function)) i i) →
      r.firing function = (r.bindsFor function).map (·.bind.handler)) := by
  constructor
  · intro hacyclic
    obtain ⟨order, hresolve, horder, hleast⟩ :=
      FiringOrder.resolve_acyclic closed_edges (acyclic_edges.mpr hacyclic)
    refine ⟨order, isOrder_edges.mp horder, fun other ho => hleast other (isOrder_edges.mpr ho), ?_⟩
    have hordered : r.ordered function = .ok (order.filterMap ((r.bindsFor function)[·]?)) := by
      simp only [Registry.ordered, hresolve]
    unfold Registry.firing
    rw [hordered]
  · rintro ⟨i, hcycle⟩
    have hcyclic : ¬FiringOrder.Acyclic (Registry.edges (r.bindsFor function)) := fun hacyclic =>
      acyclic_edges.mp hacyclic i hcycle
    obtain ⟨stuck, hresolve⟩ := FiringOrder.resolve_cyclic closed_edges hcyclic
    have hordered : ∃ fault, r.ordered function = .error fault := by
      simp only [Registry.ordered, hresolve]
      exact ⟨_, rfl⟩
    obtain ⟨fault, hordered⟩ := hordered
    unfold Registry.firing
    rw [hordered]

/-! ### Which binds matter -/

section

variable (h : List.Forall₂ (OwnedBind.SameAmong (binds.map (·.owner))) binds others)

include h

/-- Who has to fire before whom depends on what binds say about the owners among them. -/
theorem firesBefore_congr : FiresBefore binds = FiresBefore others := by
  have hsame : ∀ {k : Nat} {b c : OwnedBind}, binds[k]? = some b → others[k]? = some c →
      b.SameAmong (binds.map (·.owner)) c := fun hb hc => by
    obtain ⟨hk, rfl⟩ := List.getElem?_eq_some_iff.mp hb
    obtain ⟨hk', rfl⟩ := List.getElem?_eq_some_iff.mp hc
    exact h.get hk hk'
  have hthere : ∀ {k : Nat}, (∃ b, binds[k]? = some b) ↔ ∃ c, others[k]? = some c := fun {k} => by
    simp [← Option.isSome_iff_exists, h.length_eq]
  have howner : ∀ {k : Nat} {b : OwnedBind}, binds[k]? = some b → b.owner ∈ binds.map (·.owner) := fun hb =>
    List.mem_map_of_mem (List.mem_of_getElem? hb)
  funext i j
  refine propext (and_congr_right fun _ => ⟨?_, ?_⟩)
  · rintro ⟨c, b, hc, hb, hsays⟩
    obtain ⟨c', hc'⟩ := hthere.mp ⟨c, hc⟩
    obtain ⟨b', hb'⟩ := hthere.mp ⟨b, hb⟩
    refine ⟨c', b', hc', hb', ?_⟩
    rw [← (hsame hc hc').owner, ← (hsame hb hb').owner, ← (hsame hb hb').after _ (howner hc),
      ← (hsame hc hc').before _ (howner hb)]
    exact hsays
  · rintro ⟨c', b', hc', hb', hsays⟩
    obtain ⟨c, hc⟩ := hthere.mpr ⟨c', hc'⟩
    obtain ⟨b, hb⟩ := hthere.mpr ⟨b', hb'⟩
    refine ⟨c, b, hc, hb, ?_⟩
    rw [← (hsame hc hc').owner, ← (hsame hb hb').owner, ← (hsame hb hb').after _ (howner hc),
      ← (hsame hc hc').before _ (howner hb)] at hsays
    exact hsays

theorem heeds_congr : Heeds binds order ↔ Heeds others order :=
  ⟨fun ho => ⟨h.length_eq ▸ ho.perm, firesBefore_congr h ▸ ho.before⟩,
    fun ho => ⟨h.length_eq.symm ▸ ho.perm, (firesBefore_congr h).symm ▸ ho.before⟩⟩

theorem handlers_congr : binds.map (·.bind.handler) = others.map (·.bind.handler) := by
  refine List.ext_getElem (by simp [h.length_eq]) fun k hk hk' => ?_
  rw [List.getElem_map, List.getElem_map]
  rw [List.length_map] at hk hk'
  exact (h.get hk hk').handler

end

/-- The handlers of a function are the same where its binds are, as far as they say anything about each other. -/
theorem firing_congr {r r' : Registry} {function : String}
    (h : List.Forall₂ (OwnedBind.SameAmong ((r.bindsFor function).map (·.owner))) (r.bindsFor function)
      (r'.bindsFor function)) : r.firing function = r'.firing function := by
  obtain ⟨hacyclic, hcyclic⟩ := firing_spec r function
  obtain ⟨hacyclic', hcyclic'⟩ := firing_spec r' function
  rw [← firesBefore_congr h, ← handlers_congr h] at hcyclic'
  rw [← firesBefore_congr h] at hacyclic'
  by_cases hcycle : ∃ i, Relation.TransGen (FiresBefore (r.bindsFor function)) i i
  · rw [hcyclic hcycle, hcyclic' hcycle]
  · obtain ⟨order, horder, hleast, hfiring⟩ := hacyclic (not_exists.mp hcycle)
    obtain ⟨order', horder', hleast', hfiring'⟩ := hacyclic' (not_exists.mp hcycle)
    obtain rfl := eq_of_least (hleast order' ((heeds_congr h).mpr horder'))
      (hleast' order ((heeds_congr h).mp horder))
    have hpick : ∀ bs : List OwnedBind, (order.filterMap (bs[·]?)).map (·.bind.handler)
        = order.filterMap ((bs.map (·.bind.handler))[·]?) := fun bs => by
      rw [List.map_filterMap]
      exact List.filterMap_congr fun i _ => (List.getElem?_map ..).symm
    rw [hfiring, hfiring', hpick, hpick, handlers_congr h]

/-- Handlers fire in the right order.  After any calls, if nobody has to fire before himself, the handlers of a
function are those of its binds, in the least order by their registration that heeds who has to fire before
whom; else they are in the order of their registration.  Neither binds of other functions nor what is said
about owners without a bind for the function make a difference. -/
theorem handlers_fire_in_order (calls : List RegistryCall) (function : String) :
    ((∀ i, ¬Relation.TransGen (FiresBefore ((RegistryCall.run calls {}).bindsFor function)) i i) →
      ∃ order, Heeds ((RegistryCall.run calls {}).bindsFor function) order ∧
        (∀ other, Heeds ((RegistryCall.run calls {}).bindsFor function) other →
          other = order ∨ List.Lex (· < ·) order other) ∧
        ((RegistryCall.run calls {}).handlersFor function).1
          = (order.filterMap (((RegistryCall.run calls {}).bindsFor function)[·]?)).map (·.bind.handler)) ∧
    ((∃ i, Relation.TransGen (FiresBefore ((RegistryCall.run calls {}).bindsFor function)) i i) →
      ((RegistryCall.run calls {}).handlersFor function).1
        = ((RegistryCall.run calls {}).bindsFor function).map (·.bind.handler)) ∧
    ∀ calls', List.Forall₂
        (OwnedBind.SameAmong (((RegistryCall.run calls {}).bindsFor function).map (·.owner)))
        ((RegistryCall.run calls {}).bindsFor function) ((RegistryCall.run calls' {}).bindsFor function) →
      ((RegistryCall.run calls {}).handlersFor function).1
        = ((RegistryCall.run calls' {}).handlersFor function).1 := by
  have hanswer : ∀ calls, ((RegistryCall.run calls {}).handlersFor function).1
      = (RegistryCall.run calls {}).firing function := fun calls =>
    Registry.handlersFor_fst (RegistryCall.fresh_run calls RegistryCall.fresh_empty) function
  obtain ⟨hacyclic, hcyclic⟩ := firing_spec (RegistryCall.run calls {}) function
  simp only [hanswer]
  exact ⟨hacyclic, hcyclic, fun calls' h => firing_congr h⟩

/-- `B` waits for `A`, and `A` for `C`. -/
example : ((Registry.ordered { binds := [
      ⟨"B", { function := "Use", handler := .press "b", after := ["A"] }⟩,
      ⟨"A", { function := "Use", handler := .press "a" }⟩,
      ⟨"C", { function := "Use", handler := .press "c", before := ["A"] }⟩] } "Use").toOption.map
    fun binds => binds.map (·.owner)) = some ["C", "A", "B"] := by decide +kernel

end KeyConsole.Dispatch
