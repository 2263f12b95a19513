import KeyConsole.Proofs.Dispatch.Listing

/-!
# Proofs.Dispatch.Neighbours: bindings of one combination stand together

A table is in descending order of combinations, so behind a binding those of its combination come first and all
others are of smaller ones.  That is why neighbours of one combination are all that there are of it.
-/

namespace KeyConsole.Dispatch

open Keyboard (Combo)
open Ordered (InOrder)

theorem Binding.lower_of_precedes {a b : Binding} (h : precedes a b) (hne : b.combo ≠ a.combo) :
    b.combo.packed.toNat < a.combo.packed.toNat := by
  rcases precedes_iff.mp h with h | ⟨h, -⟩
  · exact h
  · exact absurd (congrArg Combo.mk (UInt32.toNat_inj.mp h)).symm hne

namespace Table

variable {bs : List Binding} {b : Binding} {combo : Combo}

/-- Behind a binding those of its combination come first. -/
theorem filter_combo (h : InOrder Binding.precedes (b :: bs)) :
    bs.filter (·.combo = b.combo) = bs.takeWhile (·.combo = b.combo) ∧
      bs.filter (·.combo ≠ b.combo) = bs.dropWhile (·.combo = b.combo) := by
  induction bs with
  | nil => exact ⟨rfl, rfl⟩
  | cons c bs ih =>
    obtain ⟨hb, hrest⟩ := List.pairwise_cons.mp h
    by_cases hc : c.combo = b.combo
    · obtain ⟨hsame, hother⟩ := ih (h.sublist ((List.sublist_cons_self c bs).cons_cons b))
      simp only [ne_eq, decide_not] at hother
      simp [hc, hsame, hother]
    · -- from here on all combinations are smaller
      have hlower := Binding.lower_of_precedes (hb c List.mem_cons_self) hc
      have hothers : ∀ x ∈ bs, x.combo ≠ b.combo := by
        intro x hx heq
        have hcx := (List.pairwise_cons.mp hrest).1 x hx
        rw [Binding.precedes_iff, heq] at hcx
        omega
      have hnone : bs.filter (·.combo = b.combo) = [] := by
        rw [List.filter_eq_nil_iff]
        simpa using hothers
      have hall : bs.filter (·.combo ≠ b.combo) = bs := by
        rw [List.filter_eq_self]
        simpa using hothers
      simp only [ne_eq, decide_not] at hall
      simp [hc, hnone, hall]

/-! ### Groups -/

/-- The functions of a combination. -/
def functionsOf (combo : Combo) (bs : List Binding) : List String :=
  (bs.filter (·.combo = combo)).map (·.function)

theorem exists_of_mem_groups {g : Shared} (h : g ∈ groups bs) : ∃ b ∈ bs, b.combo = g.1 := by
  induction bs generalizing g with
  | nil => cases h
  | cons b bs ih =>
    rw [groups] at h
    have hlater : ∀ g ∈ groups bs, ∃ c ∈ b :: bs, c.combo = g.1 := by
      intro g hg
      obtain ⟨c, hc, hcombo⟩ := ih hg
      exact ⟨c, List.mem_cons_of_mem b hc, hcombo⟩
    cases hgroups : groups bs with
    | nil =>
      rw [hgroups, List.mem_singleton] at h
      exact ⟨b, List.mem_cons_self, by rw [h]⟩
    | cons first others =>
      rw [hgroups] at h hlater
      simp only at h
      split at h
      · rename_i hcombo
        rcases List.mem_cons.mp h with rfl | h
        · exact ⟨b, List.mem_cons_self, hcombo⟩
        · exact hlater g (List.mem_cons_of_mem first h)
      · rcases List.mem_cons.mp h with rfl | h
        · exact ⟨b, List.mem_cons_self, rfl⟩
        · exact hlater g h

/-- Neighbours of one combination are a group. -/
theorem groups_append {others : List Binding} (hbs : ∀ c ∈ bs, c.combo = b.combo)
    (hothers : ∀ c ∈ others, c.combo ≠ b.combo) :
    groups (b :: (bs ++ others)) = (b.combo, b.function :: bs.map (·.function)) :: groups others := by
  induction bs generalizing b with
  | nil =>
    rw [List.nil_append, groups]
    cases hgroups : groups others with
    | nil => rfl
    | cons first rest =>
      have hfirst : first ∈ groups others := hgroups ▸ List.mem_cons_self
      obtain ⟨c, hc, hcombo⟩ := exists_of_mem_groups hfirst
      have hne : b.combo ≠ first.1 := fun heq => hothers c hc (hcombo.trans heq.symm)
      simp only
      rw [if_neg hne, List.map_nil]
  | cons c bs ih =>
    obtain ⟨hc, hbs⟩ := List.forall_mem_cons.mp hbs
    rw [← hc] at hbs hothers
    rw [groups, List.cons_append, ih hbs hothers]
    simp only
    rw [if_pos hc.symm, hc, List.map_cons]

/-- Where bindings are in order, the first group is that of all bindings of its combination. -/
theorem groups_cons (h : InOrder Binding.precedes (b :: bs)) :
    groups (b :: bs) = (b.combo, functionsOf b.combo (b :: bs)) :: groups (bs.filter (·.combo ≠ b.combo)) := by
  obtain ⟨hsame, hother⟩ := filter_combo h
  have hsplit : bs = bs.filter (·.combo = b.combo) ++ bs.filter (·.combo ≠ b.combo) := by
    rw [hsame, hother, List.takeWhile_append_dropWhile]
  have hgroups : groups (b :: (bs.filter (·.combo = b.combo) ++ bs.filter (·.combo ≠ b.combo))) = _ :=
    groups_append (fun c hc => by simpa using (List.mem_filter.mp hc).2)
      fun c hc => by simpa using (List.mem_filter.mp hc).2
  rw [← hsplit] at hgroups
  rw [hgroups, functionsOf, List.filter_cons_of_pos (by simp), List.map_cons]

/-- There is one group for each combination, with all of its functions. -/
theorem groups_spec (h : InOrder Binding.precedes bs) :
    ((groups bs).map (·.1)).Nodup ∧ ∀ combo functions, (combo, functions) ∈ groups bs ↔
      (∃ b ∈ bs, b.combo = combo) ∧ functions = functionsOf combo bs := by
  induction hn : bs.length using Nat.strong_induction_on generalizing bs with
  | _ n ih =>
    cases bs with
    | nil => simp [groups]
    | cons b rest =>
      have hshorter : (rest.filter (·.combo ≠ b.combo)).length < n := by
        have := List.length_filter_le (·.combo ≠ b.combo) rest
        simp only [List.length_cons] at hn
        omega
      obtain ⟨hnodup, hmem⟩ := ih _ hshorter (h.of_cons.sublist List.filter_sublist) rfl
      have hnew : b.combo ∉ (groups (rest.filter (·.combo ≠ b.combo))).map (·.1) := by
        intro hin
        obtain ⟨g, hg, hcombo⟩ := List.mem_map.mp hin
        obtain ⟨c, hc, hc'⟩ := exists_of_mem_groups hg
        simpa [hc', hcombo] using (List.mem_filter.mp hc).2
      rw [groups_cons h]
      refine ⟨List.nodup_cons.mpr ⟨hnew, hnodup⟩, fun combo functions => ?_⟩
      rw [List.mem_cons, hmem]
      by_cases hcombo : combo = b.combo
      · subst hcombo
        simp [functionsOf]
      · have hrest : functionsOf combo (rest.filter (·.combo ≠ b.combo)) = functionsOf combo (b :: rest) := by
          rw [functionsOf, functionsOf, List.filter_filter, List.filter_cons_of_neg (by simpa using Ne.symm hcombo)]
          congr 1
          refine List.filter_congr fun c _ => ?_
          by_cases hc : c.combo = combo <;> simp [hc, hcombo]
        have hexists : (∃ c ∈ rest.filter (·.combo ≠ b.combo), c.combo = combo) ↔ ∃ c ∈ b :: rest, c.combo = combo := by
          refine ⟨?_, ?_⟩
          · rintro ⟨c, hc, rfl⟩
            exact ⟨c, List.mem_cons_of_mem b (List.mem_filter.mp hc).1, rfl⟩
          · rintro ⟨c, hc, rfl⟩
            have hc' : c ∈ rest := (List.mem_cons.mp hc).resolve_left fun heq => hcombo (by rw [heq])
            exact ⟨c, List.mem_filter.mpr ⟨hc', by simpa using hcombo⟩, rfl⟩
        rw [hrest, hexists]
        simp [hcombo]

end Table

end KeyConsole.Dispatch
