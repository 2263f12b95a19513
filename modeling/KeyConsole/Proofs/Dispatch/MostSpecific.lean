import KeyConsole.Proofs.Dispatch.HeldBindings
import KeyConsole.Proofs.Dispatch.Selection
import KeyConsole.Proofs.Keyboard.Specificity

/-!
# Proofs.Dispatch.MostSpecific: what stands before and behind the selected combination

Since a table is in descending order of packed combinations, a press selects the greatest one that can fire and has
the key, and covers those that are smaller.  What it covers and does not let fire along is no longer down afterwards,
toggles apart.
-/

namespace KeyConsole.Dispatch.Dispatcher

open Keyboard (Key Combo Event)
open Ordered (InOrder)

variable {d : Dispatcher} {k : Key} {m : Combo} {b : Binding} {e : Event}

theorem not_packed_lt_of_precedes {a b : Binding} (h : Binding.precedes a b) : ¬a.combo.packed < b.combo.packed := by
  rw [Binding.precedes_iff] at h
  rw [UInt32.lt_iff_toNat_lt]
  omega

/-- The selected combination can fire and is the greatest one that does so and has the key. -/
theorem selected_greatest (hd : d.table.Sorted) (h : d.selected? k = some m) :
    (∃ b ∈ d.ready, b.combo = m) ∧ ∀ b ∈ d.ready, b.combo.contains k → ¬m.packed < b.combo.packed := by
  obtain ⟨first, hfind, rfl⟩ := Option.map_eq_some_iff.mp h
  obtain ⟨-, before, rest, hsplit, hbefore⟩ := List.find?_eq_some_iff_append.mp hfind
  have horder := inOrder_ready hd
  rw [hsplit] at horder ⊢
  refine ⟨⟨first, by simp, rfl⟩, fun b hb hk => ?_⟩
  rcases List.mem_append.mp hb with hb | hb
  · exact absurd hk (by simpa using hbefore b hb)
  · rcases List.mem_cons.mp hb with rfl | hb
    · exact fun hlt => Nat.lt_irrefl _ (UInt32.lt_iff_toNat_lt.mp hlt)
    · exact not_packed_lt_of_precedes ((List.pairwise_cons.mp (List.pairwise_append.mp horder).2.1).1 b hb)

/-- What stands behind the selected combination is what is smaller. -/
theorem mem_covered (hd : d.table.Sorted) (h : d.selected? k = some m) :
    b ∈ d.covered m ↔ b ∈ d.ready ∧ m.covers b.combo ∧ b.combo.packed < m.packed := by
  obtain ⟨hk, before, first, same, behind, hready, hbefore, hfirst, -, -⟩ := ready_split hd h
  obtain ⟨-, hrest, hfront⟩ := List.pairwise_append.mp (hready ▸ inOrder_ready hd)
  have hdrop : d.ready.dropWhile (·.combo ≠ m) = first :: (same ++ behind) := by
    have hother : ∀ c ∈ before, c.combo ≠ m := fun c hc hcombo => hbefore c hc (hcombo ▸ hk)
    rw [hready, List.dropWhile_append_of_pos (by simpa using hother),
      List.dropWhile_cons_of_neg (by simpa using hfirst)]
  have hmem : b ∈ d.covered m ↔ b ∈ first :: (same ++ behind) ∧ b.combo ≠ m ∧ m.covers b.combo := by
    rw [covered, hdrop, List.mem_filter]
    simp
  rw [hmem]
  refine ⟨?_, ?_⟩
  · rintro ⟨hb, hne, hcovers⟩
    refine ⟨hready ▸ List.mem_append_right before hb, hcovers, ?_⟩
    rcases List.mem_cons.mp hb with rfl | hb
    · exact absurd hfirst hne
    · have hlower := Binding.lower_of_precedes ((List.pairwise_cons.mp hrest).1 b hb) (hfirst ▸ hne)
      rwa [hfirst, ← UInt32.lt_iff_toNat_lt] at hlower
  · rintro ⟨hb, hcovers, hlower⟩
    rw [hready] at hb
    refine ⟨(List.mem_append.mp hb).resolve_left fun hb => ?_, ?_, hcovers⟩
    · exact not_packed_lt_of_precedes (hfront b hb first List.mem_cons_self) (hfirst ▸ hlower)
    · rintro rfl
      exact Nat.lt_irrefl _ (UInt32.lt_iff_toNat_lt.mp hlower)

theorem packed_of_fires (hs : d.Sound) (h : d.fires? e = some m) : m.Packed := by
  obtain ⟨first, hfind, rfl⟩ := Option.map_eq_some_iff.mp (keyDown_of_fires h).1
  have hs' := hs.keyed (keyed_alongReleases.takenOver e d)
  exact hs'.packed first (mem_ready.mp (List.mem_of_find?_eq_some hfind)).1

theorem isFullyPressed_of_covers {c : Combo} (hm : d.isFullyPressed m) (h : m.covers c) : d.isFullyPressed c :=
  isFullyPressed_iff.mpr fun j hj => isFullyPressed_iff.mp hm j (Combo.mem_keys_of_covers h hj)

theorem table_readied (m : Combo) (d : Dispatcher) : (d.readied m).2.table = (d.forced m).table := by
  unfold readied
  split
  · exact (relayed_offerFocus _).table
  · rfl

/-- What is down after the offers to the bindings of a combination, and of another one, was down before. -/
theorem mem_of_offered {uiOnly isRepeat : Bool} {d' : Dispatcher} (hs : d.Sound) (halike : d.table.Alike d'.table)
    (hb : b ∈ (pressAll uiOnly isRepeat ((d.chosen m).map (·.id)) d').table.bindings) (hdown : b.isDown)
    (hne : b.combo ≠ m) : b ∈ d'.table.bindings := by
  refine (down_pressAll (halike.distinct hs.distinct) hb hdown).resolve_right ?_
  rintro ⟨c, hc, hid, -, rfl⟩
  obtain ⟨x, hx, hxid⟩ := List.mem_map.mp hid
  obtain ⟨hready, hcombo⟩ := List.mem_filter.mp hx
  obtain ⟨y, hy, hrest⟩ := halike.exists_mem hc
  have hyid : y.id = c.id := (congrArg Binding.id hrest :)
  have hycombo : y.combo = c.combo := (congrArg Binding.combo hrest :)
  obtain rfl : y = x := hs.distinct.eq_of_id hy (mem_ready.mp hready).1 (hyid.trans hxid.symm)
  exact hne (hycombo.symm.trans (by simpa using hcombo))

/-- After a press that fires a combination alone, no live binding of a smaller one that this covers is down, but for
toggles. -/
theorem not_isDown_of_covered (hs : d.Sound) (hd : d.table.Sorted) (h : d.fires? e = some m)
    (halone : (takenOver e d).fireAlong m = false) (hb : b ∈ (keyDown e d).2.table.bindings)
    (hkind : b.kind = .state) (hlive : d.contexts.isLive b.function) (hcovers : m.covers b.combo)
    (hlower : b.combo.packed < m.packed) : ¬b.isDown := by
  intro hdown
  obtain ⟨hselected, hfired⟩ := keyDown_of_fires h
  have hkeyed : Keyed d (takenOver e d) := keyed_alongReleases.takenOver e d
  have hcontexts : (takenOver e d).contexts = d.contexts := hkeyed.contexts
  have hs' := hs.keyed hkeyed
  have hsorted := hkeyed.alike.sorted hd
  generalize takenOver e d = t at *
  obtain ⟨⟨first, hfirst, rfl⟩, -⟩ := selected_greatest hsorted hselected
  have hpressed := isFullyPressed_of_covers (mem_ready.mp hfirst).2.2 hcovers
  have hne : b.combo ≠ first.combo := by
    intro heq
    rw [heq] at hlower
    exact Nat.lt_irrefl _ (UInt32.lt_iff_toNat_lt.mp hlower)
  rw [hfired, fired_some hsorted hselected, offered, if_neg (by simp [halone]), List.append_nil] at hb
  have hreadied := mem_of_offered hs' (keyed_alongReleases.readied first.combo t).alike hb hdown hne
  rw [table_readied] at hreadied
  obtain ⟨hmem, htoggle⟩ := down_releaseAll hs'.distinct hreadied hdown
  have hready : b ∈ t.ready := mem_ready.mpr ⟨hmem, by simp [isEligible, hcontexts, hlive], hpressed⟩
  have hforced : b ∈ t.forcedUp first.combo := by
    rw [forcedUp, if_neg (by simp [halone])]
    exact (mem_covered hsorted hselected).mpr ⟨hready, hcovers, hlower⟩
  have hstate := htoggle (List.mem_map_of_mem hforced)
  rw [hkind] at hstate
  cases hstate

end KeyConsole.Dispatch.Dispatcher
