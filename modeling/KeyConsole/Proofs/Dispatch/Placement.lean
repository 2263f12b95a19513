import KeyConsole.Dispatch.FiringOrder
import Mathlib.Data.Fintype.EquivFin
import Mathlib.Order.WellFounded

/-!
# Proofs.Dispatch.Placement: nodes placed one by one

While nodes are placed, the numbers of edges that are left and the ready nodes are what the nodes still to be
placed say.  So the smallest node that waits for no other comes first, which gives the least of all orders; and
the nodes that are stuck all wait for one another.
-/

namespace KeyConsole.Dispatch.FiringOrder

variable {targets : List (List Nat)} {left ts : List Nat} {p : Progress} {i j node : Nat}

/-- An edge leads from a node to another. -/
def Edge (targets : List (List Nat)) (i j : Nat) : Prop := j ∈ targets.getD i []

/-- Every edge leads to a node. -/
def Closed (targets : List (List Nat)) : Prop := ∀ i j, Edge targets i j → j < targets.length

/-- No way along edges leads back to where it starts. -/
def Acyclic (targets : List (List Nat)) : Prop := ∀ i, ¬Relation.TransGen (Edge targets) i i

/-- An order of some nodes in which every edge leads forward. -/
structure IsOrder (targets : List (List Nat)) (nodes order : List Nat) : Prop where
  perm : order.Perm nodes
  forward : ∀ i ∈ order, ∀ j ∈ order, Edge targets i j → order.idxOf i < order.idxOf j

/-- The progress when some nodes are still to be placed: they are in ascending order, their edges lead to one
another, and the numbers of edges and the ready nodes are those of them. -/
structure Tracks (targets : List (List Nat)) (left : List Nat) (p : Progress) : Prop where
  ascending : left.Pairwise (· < ·)
  inside : ∀ i ∈ left, i < targets.length
  closed : ∀ i ∈ left, ∀ j, Edge targets i j → j ∈ left
  length : p.incoming.length = targets.length
  edgesTo : ∀ node, p.edgesTo node = (left.flatMap (targets.getD · [])).count node
  ready : p.ready = left.filter (p.edgesTo · = 0)

/-! ### Edges taken away -/

theorem edgesTo_release (h : i < p.incoming.length) :
    (p.release i).edgesTo node = p.edgesTo node - if node = i then 1 else 0 := by
  unfold Progress.release Progress.edgesTo
  by_cases hn : node = i
  · subst hn
    simp [List.getD_eq_getElem?_getD, h]
  · simp [List.getD_eq_getElem?_getD, hn, List.getElem?_set_ne (Ne.symm hn)]

theorem length_release : (p.release i).incoming.length = p.incoming.length := by
  simp [Progress.release]

/-- In an ascending list the elements with a property and one more are put together by insertion. -/
theorem insertSorted_filter {P Q : Nat → Bool} (hasc : left.Pairwise (· < ·)) (hi : i ∈ left)
    (hP : P i = false) (hQ : ∀ j ∈ left, Q j = (P j || j == i)) :
    Ordered.insertSorted (· ≤ ·) i (left.filter P) = left.filter Q := by
  induction left with
  | nil => cases hi
  | cons a rest ih =>
    obtain ⟨ha, hrest⟩ := List.pairwise_cons.mp hasc
    obtain ⟨hQa, hQrest⟩ := List.forall_mem_cons.mp hQ
    by_cases hai : a = i
    · subst hai
      have hsame : rest.filter P = rest.filter Q := by
        refine List.filter_congr fun j hj => ?_
        have hne : j ≠ a := (ha j hj).ne'
        simp [hQrest j hj, hne]
      have hQa : Q a = true := by simp [hQa]
      rw [List.filter_cons_of_neg (by simp [hP]), List.filter_cons_of_pos hQa, ← hsame]
      -- everything behind `a` is greater, so `a` comes first
      cases hfilter : rest.filter P with
      | nil => rfl
      | cons b bs =>
        have hb : a < b := ha b (List.mem_filter.mp (hfilter ▸ List.mem_cons_self)).1
        rw [Ordered.insertSorted, if_neg (by simp; omega)]
    · have hi : i ∈ rest := (List.mem_cons.mp hi).resolve_left (Ne.symm hai)
      have hlt : a < i := ha i hi
      by_cases hPa : P a
      · have hQa : Q a = true := by simp [hQa, hPa]
        rw [List.filter_cons_of_pos hPa, List.filter_cons_of_pos hQa, Ordered.insertSorted,
          if_pos (by simp; omega), ih hrest hi hQrest]
      · have hQa : ¬Q a = true := by simp [hQa, hPa, hai]
        rw [List.filter_cons_of_neg hPa, List.filter_cons_of_neg hQa, ih hrest hi hQrest]

/-- When an edge is taken away, the ready nodes are again those that no edge leads to. -/
theorem ready_release (hasc : left.Pairwise (· < ·)) (hready : p.ready = left.filter (p.edgesTo · = 0))
    (hi : i ∈ left) (hlt : i < p.incoming.length) (hpos : 0 < p.edgesTo i) :
    (p.release i).ready = left.filter ((p.release i).edgesTo · = 0) := by
  have hunfold : (p.release i).ready
      = if p.edgesTo i - 1 = 0 then Ordered.insertSorted (· ≤ ·) i p.ready else p.ready := rfl
  have hself : (p.release i).edgesTo i = p.edgesTo i - 1 := by rw [edgesTo_release hlt, if_pos rfl]
  have hother : ∀ j, j ≠ i → (p.release i).edgesTo j = p.edgesTo j := fun j hj => by
    rw [edgesTo_release hlt, if_neg hj, Nat.sub_zero]
  rw [hunfold, hready]
  split_ifs with hlast
  · refine insertSorted_filter hasc hi (by simp; omega) fun j _ => ?_
    by_cases hj : j = i
    · subst hj
      simp [hself, hlast]
    · simp [hother j hj, hj]
  · refine List.filter_congr fun j _ => ?_
    by_cases hj : j = i
    · subst hj
      rw [hself, decide_eq_decide]
      omega
    · rw [hother j hj]

/-- Taking away the edges to some nodes lowers their numbers, and makes those ready that have none left. -/
theorem releases (hasc : left.Pairwise (· < ·)) (hready : p.ready = left.filter (p.edgesTo · = 0))
    (hts : ∀ t ∈ ts, t ∈ left ∧ t < p.incoming.length ∧ ts.count t ≤ p.edgesTo t) :
    (ts.foldl Progress.release p).incoming.length = p.incoming.length ∧
      (∀ node, (ts.foldl Progress.release p).edgesTo node = p.edgesTo node - ts.count node) ∧
      (ts.foldl Progress.release p).ready
        = left.filter ((ts.foldl Progress.release p).edgesTo · = 0) := by
  induction ts generalizing p with
  | nil => exact ⟨rfl, fun node => by simp, hready⟩
  | cons t ts ih =>
    obtain ⟨ht, hlength, hcount⟩ := hts t List.mem_cons_self
    rw [List.count_cons_self] at hcount
    have hstep := @edgesTo_release p t (h := hlength)
    obtain ⟨hlen, hedges, hfinal⟩ := ih (ready_release hasc hready ht hlength (by omega)) fun u hu => by
      obtain ⟨hmem, hlt, hle⟩ := hts u (List.mem_cons_of_mem t hu)
      rw [List.count_cons] at hle
      refine ⟨hmem, by rwa [length_release], ?_⟩
      rw [edgesTo_release hlength]
      by_cases hut : u = t
      · subst hut
        simp only [beq_self_eq_true, if_true] at hle ⊢
        omega
      · simp only [hut, if_false, Nat.sub_zero]
        omega
    refine ⟨hlen.trans length_release, fun node => ?_, hfinal⟩
    rw [List.foldl_cons, hedges, edgesTo_release hlength, List.count_cons]
    by_cases hnt : node = t
    · subst hnt
      simp only [beq_self_eq_true, if_true]
      omega
    · have hne : (t == node) = false := by simpa using Ne.symm hnt
      simp [hnt, hne]

/-! ### What is tracked -/

/-- At the start all nodes are still to be placed. -/
theorem tracks_start (h : Closed targets) : Tracks targets (List.range targets.length) (start targets) := by
  have hedges : ∀ node, (start targets).edgesTo node = targets.flatten.count node := by
    intro node
    unfold start Progress.edgesTo
    by_cases hn : node < targets.length
    · simp [List.getD_eq_getElem?_getD, hn]
    · have hnone : targets.flatten.count node = 0 := by
        rw [List.count_eq_zero]
        intro hmem
        obtain ⟨ts, hts, hnode⟩ := List.mem_flatten.mp hmem
        obtain ⟨i, hi, rfl⟩ := List.mem_iff_getElem.mp hts
        exact hn (h i node (by simpa [Edge, List.getD_eq_getElem?_getD, hi] using hnode))
      simp [List.getD_eq_getElem?_getD, hn, hnone]
  refine ⟨List.pairwise_lt_range, fun i hi => List.mem_range.mp hi, fun i _ j hj => List.mem_range.mpr (h i j hj),
    by simp [start], fun node => ?_, ?_⟩
  · rw [hedges]
    congr 1
    rw [List.flatMap_def]
    congr 1
    refine List.ext_getElem (by simp) fun i h₁ h₂ => ?_
    simp [List.getD_eq_getElem?_getD, h₁]
  · refine List.filter_congr fun node _ => ?_
    rw [hedges]

/-- No edge leads to a node that is ready. -/
theorem Tracks.free (h : Tracks targets left p) (hi : i ∈ p.ready) :
    i ∈ left ∧ ∀ j ∈ left, ¬Edge targets j i := by
  rw [h.ready, List.mem_filter, decide_eq_true_eq, h.edgesTo, List.count_eq_zero] at hi
  exact ⟨hi.1, fun j hj hedge => hi.2 (List.mem_flatMap.mpr ⟨j, hj, hedge⟩)⟩

/-- A node that no edge leads to is ready. -/
theorem Tracks.mem_ready (h : Tracks targets left p) (hi : i ∈ left) (hfree : ∀ j ∈ left, ¬Edge targets j i) :
    i ∈ p.ready := by
  rw [h.ready, List.mem_filter, decide_eq_true_eq, h.edgesTo, List.count_eq_zero]
  refine ⟨hi, fun hmem => ?_⟩
  obtain ⟨j, hj, hedge⟩ := List.mem_flatMap.mp hmem
  exact hfree j hj hedge

theorem Tracks.nodup (h : Tracks targets left p) : left.Nodup := h.ascending.imp Nat.ne_of_lt

/-- The first of the ready nodes is placed, and its edges are taken away. -/
theorem Tracks.next {ready : List Nat} (h : Tracks targets left p) (hready : p.ready = node :: ready) :
    Tracks targets (left.erase node) ((targets.getD node []).foldl Progress.release { p with ready }) := by
  obtain ⟨hnode, hfree⟩ := h.free (hready ▸ List.mem_cons_self)
  have hmem : ∀ {i}, i ∈ left.erase node ↔ i ≠ node ∧ i ∈ left := h.nodup.mem_erase_iff
  have htarget : ∀ i ∈ left, ∀ j, Edge targets i j → j ∈ left.erase node := by
    intro i hi j hedge
    refine hmem.mpr ⟨?_, h.closed i hi j hedge⟩
    rintro rfl
    exact hfree i hi hedge
  have hcount : ∀ j, p.edgesTo j = (targets.getD node []).count j
      + ((left.erase node).flatMap (targets.getD · [])).count j := by
    intro j
    rw [h.edgesTo, ((List.perm_cons_erase hnode).flatMap_right _).count_eq, List.flatMap_cons,
      List.count_append]
  have hrest : ready = (left.erase node).filter (p.edgesTo · = 0) := by
    rw [← List.erase_filter, ← h.ready, hready, List.erase_cons_head]
  obtain ⟨hlength, hedges, hready'⟩ := releases (p := { p with ready }) (h.ascending.erase node) hrest
    fun t ht => ⟨htarget node hnode t ht, by
      rw [h.length]
      exact h.inside t (h.closed node hnode t ht), by
      have := hcount t
      change _ ≤ p.edgesTo t
      omega⟩
  refine ⟨h.ascending.erase node, fun i hi => h.inside i (hmem.mp hi).2,
    fun i hi j hedge => htarget i (hmem.mp hi).2 j hedge, hlength.trans h.length, fun j => ?_, hready'⟩
  rw [hedges]
  change p.edgesTo j - _ = _
  rw [hcount, Nat.add_sub_cancel_left]

/-! ### Orders -/

theorem isOrder_nil {order : List Nat} : IsOrder targets [] order ↔ order = [] := by
  refine ⟨fun h => List.perm_nil.mp h.perm, ?_⟩
  rintro rfl
  exact ⟨.refl _, fun i hi => by cases hi⟩

/-- An order begins with a node that no edge leads to, and goes on with an order of the others. -/
theorem isOrder_cons {rest : List Nat} (hnodup : left.Nodup) :
    IsOrder targets left (i :: rest) ↔
      i ∈ left ∧ (∀ j ∈ left, ¬Edge targets j i) ∧ IsOrder targets (left.erase i) rest := by
  constructor
  · rintro ⟨hperm, hforward⟩
    have hi : i ∈ left := hperm.subset List.mem_cons_self
    have hne : ∀ j ∈ rest, i ≠ j := fun j hj hij =>
      (List.nodup_cons.mp (hperm.nodup_iff.mpr hnodup)).1 (hij ▸ hj)
    refine ⟨hi, fun j hj hedge => ?_, (List.cons_perm_iff_perm_erase.mp hperm).2, fun j hj k hk hedge => ?_⟩
    · have := hforward j (hperm.mem_iff.mpr hj) i List.mem_cons_self hedge
      rw [List.idxOf_cons_self] at this
      omega
    · have := hforward j (List.mem_cons_of_mem i hj) k (List.mem_cons_of_mem i hk) hedge
      rw [List.idxOf_cons_ne rest (hne j hj), List.idxOf_cons_ne rest (hne k hk)] at this
      omega
  · rintro ⟨hi, hfree, hperm, hforward⟩
    have hperm' := List.cons_perm_iff_perm_erase.mpr ⟨hi, hperm⟩
    refine ⟨hperm', fun j hj k hk hedge => ?_⟩
    have hki : i ≠ k := by
      rintro rfl
      exact hfree j (hperm'.subset hj) hedge
    rw [List.idxOf_cons_ne rest hki]
    rcases List.mem_cons.mp hj with rfl | hj'
    · rw [List.idxOf_cons_self]
      omega
    · have hji : i ≠ j := by
        rintro rfl
        exact (List.nodup_cons.mp (hperm'.nodup_iff.mpr hnodup)).1 hj'
      have := hforward j hj' k ((List.mem_cons.mp hk).resolve_left (Ne.symm hki)) hedge
      rw [List.idxOf_cons_ne rest hji]
      omega

/-- Placing ends when no node is ready; those placed and those that are stuck are all. -/
theorem tracks_place {steps : Nat} (h : Tracks targets left p) (hsteps : left.length ≤ steps) :
    ∃ stuck, Tracks targets stuck (place targets steps p).2 ∧ (place targets steps p).2.ready = [] ∧
      ((place targets steps p).1 ++ stuck).Perm left := by
  induction steps generalizing left p with
  | zero =>
    obtain rfl := List.length_eq_zero_iff.mp (Nat.le_zero.mp hsteps)
    exact ⟨[], h, h.ready, .refl _⟩
  | succ steps ih =>
    cases hready : p.ready with
    | nil =>
      have hplace : place targets (steps + 1) p = ([], p) := by rw [place, hready]
      rw [hplace]
      exact ⟨left, h, hready, .refl _⟩
    | cons node ready =>
      have hnode : node ∈ left := (h.free (hready ▸ List.mem_cons_self)).1
      have hlength := List.length_erase_of_mem hnode
      obtain ⟨stuck, htracks, hnone, hperm⟩ := ih (h.next hready) (by omega)
      rw [place, hready]
      exact ⟨stuck, htracks, hnone, List.cons_perm_iff_perm_erase.mpr ⟨hnode, hperm⟩⟩

/-- If all nodes can be placed, this gives an order, and every other one is greater. -/
theorem place_least {steps : Nat} (h : Tracks targets left p) (hall : (place targets steps p).1.Perm left) :
    IsOrder targets left (place targets steps p).1 ∧ ∀ order, IsOrder targets left order →
      order = (place targets steps p).1 ∨ List.Lex (· < ·) (place targets steps p).1 order := by
  induction steps generalizing left p with
  | zero =>
    obtain rfl := List.nil_perm.mp hall
    exact ⟨isOrder_nil.mpr rfl, fun order ho => .inl (isOrder_nil.mp ho)⟩
  | succ steps ih =>
    cases hready : p.ready with
    | nil =>
      have hplace : place targets (steps + 1) p = ([], p) := by rw [place, hready]
      rw [hplace] at hall ⊢
      obtain rfl := List.nil_perm.mp hall
      exact ⟨isOrder_nil.mpr rfl, fun order ho => .inl (isOrder_nil.mp ho)⟩
    | cons node ready =>
      have hplace : (place targets (steps + 1) p).1 = node :: (place targets steps
          ((targets.getD node []).foldl Progress.release { p with ready })).1 := by rw [place, hready]
      rw [hplace] at hall ⊢
      obtain ⟨hnode, hrest⟩ := List.cons_perm_iff_perm_erase.mp hall
      obtain ⟨horder, hleast⟩ := ih (h.next hready) hrest
      have hfree := (h.free (hready ▸ List.mem_cons_self)).2
      refine ⟨(isOrder_cons h.nodup).mpr ⟨hnode, hfree, horder⟩, fun order ho => ?_⟩
      cases order with
      | nil =>
        have hnil : left = [] := List.nil_perm.mp ho.perm
        rw [hnil] at hnode
        cases hnode
      | cons i rest =>
        obtain ⟨hi, hifree, hirest⟩ := (isOrder_cons h.nodup).mp ho
        -- `i` is ready too, and `node` is the smallest of the ready nodes
        have hiready : i ∈ node :: ready := hready ▸ h.mem_ready hi hifree
        have hsorted : (node :: ready).Pairwise (· < ·) := by
          rw [← hready, h.ready]
          exact h.ascending.filter _
        rcases List.mem_cons.mp hiready with rfl | hlater
        · rcases hleast rest hirest with rfl | hless
          · exact .inl rfl
          · exact .inr (.cons hless)
        · exact .inr (.rel ((List.pairwise_cons.mp hsorted).1 i hlater))

/-! ### Cycles -/

/-- Where edges lead forward, no way along them is a cycle. -/
theorem acyclic_of_isOrder {order : List Nat} (hclosed : Closed targets)
    (h : IsOrder targets (List.range targets.length) order) : Acyclic targets := by
  have hmem : ∀ i j, Edge targets i j → i ∈ order ∧ j ∈ order := by
    intro i j hedge
    have hi : i < targets.length := by
      by_contra hi
      have hnone : targets.getD i [] = [] := by simp [List.getD_eq_getElem?_getD, Nat.not_lt.mp hi]
      rw [Edge, hnone] at hedge
      cases hedge
    exact ⟨h.perm.mem_iff.mpr (List.mem_range.mpr hi),
      h.perm.mem_iff.mpr (List.mem_range.mpr (hclosed i j hedge))⟩
  have hforward : ∀ i j, Edge targets i j → order.idxOf i < order.idxOf j := fun i j hedge =>
    h.forward i (hmem i j hedge).1 j (hmem i j hedge).2 hedge
  intro i hcycle
  have hway : ∀ {j}, Relation.TransGen (Edge targets) i j → order.idxOf i < order.idxOf j := by
    intro j hj
    induction hj with
    | single hedge => exact hforward _ _ hedge
    | tail _ hedge ih => exact ih.trans (hforward _ _ hedge)
  exact Nat.lt_irrefl _ (hway hcycle)

/-- Where each of some nodes has an edge from another of them, one of them lies on a cycle. -/
theorem exists_cycle {nodes : List Nat} (hne : nodes ≠ []) (hwaits : ∀ i ∈ nodes, ∃ j ∈ nodes, Edge targets j i) :
    ∃ k ∈ nodes, Relation.TransGen (Edge targets) k k := by
  by_contra hnone
  obtain ⟨first, hfirst⟩ := List.exists_mem_of_ne_nil nodes hne
  let before : {i // i ∈ nodes} → {i // i ∈ nodes} → Prop := fun i j => Relation.TransGen (Edge targets) i j
  have : IsTrans {i // i ∈ nodes} before := ⟨fun _ _ _ hij hjk => hij.trans hjk⟩
  have : Std.Irrefl before := ⟨fun i hi => hnone ⟨i, i.2, hi⟩⟩
  -- among the nodes one would have no other before it
  obtain ⟨⟨i, hi⟩, -, hmin⟩ :=
    (Finite.wellFounded_of_trans_of_irrefl before).has_min Set.univ ⟨⟨first, hfirst⟩, trivial⟩
  obtain ⟨j, hj, hedge⟩ := hwaits i hi
  exact hmin ⟨j, hj⟩ trivial (.single hedge)

/-- If no node is ready, each node that is left waits for another. -/
theorem Tracks.waits (h : Tracks targets left p) (hready : p.ready = []) :
    ∀ i ∈ left, ∃ j ∈ left, Edge targets j i := by
  intro i hi
  by_contra hnone
  have hmem := h.mem_ready hi fun j hj hedge => hnone ⟨j, hj, hedge⟩
  rw [hready] at hmem
  cases hmem

/-- If no node is ready, nodes are only left on a cycle or behind one. -/
theorem Tracks.eq_nil (h : Tracks targets left p) (hready : p.ready = []) (hacyclic : Acyclic targets) :
    left = [] := by
  by_contra hne
  obtain ⟨k, -, hcycle⟩ := exists_cycle hne (h.waits hready)
  exact hacyclic k hcycle

/-! ### Resolving -/

/-- Without a cycle the nodes are put into the least of all orders. -/
theorem resolve_acyclic (hclosed : Closed targets) (hacyclic : Acyclic targets) :
    ∃ order, resolve targets = .ok order ∧ IsOrder targets (List.range targets.length) order ∧
      ∀ other, IsOrder targets (List.range targets.length) other →
        other = order ∨ List.Lex (· < ·) order other := by
  have hstart := tracks_start hclosed
  obtain ⟨stuck, htracks, hnone, hperm⟩ := tracks_place hstart (List.length_range).le
  rw [htracks.eq_nil hnone hacyclic, List.append_nil] at hperm
  have hlength : (place targets targets.length (start targets)).1.length = targets.length := by
    rw [hperm.length_eq, List.length_range]
  refine ⟨(place targets targets.length (start targets)).1, ?_, place_least hstart hperm⟩
  unfold resolve
  simp only [hlength, if_true]

/-- On a cycle there is no order. -/
theorem resolve_cyclic (hclosed : Closed targets) (hcyclic : ¬Acyclic targets) :
    ∃ stuck, resolve targets = .error stuck := by
  have hstart := tracks_start hclosed
  obtain ⟨stuck, -, -, hperm⟩ := tracks_place hstart (List.length_range).le
  have hlength : ¬(place targets targets.length (start targets)).1.length = targets.length := by
    intro hlength
    have hstuck : stuck = [] := by
      have := hperm.length_eq
      rw [List.length_append, List.length_range, hlength] at this
      exact List.length_eq_zero_iff.mp (by omega)
    rw [hstuck, List.append_nil] at hperm
    exact hcyclic (acyclic_of_isOrder hclosed (place_least hstart hperm).1)
  unfold resolve
  simp only [hlength, if_false]
  exact ⟨_, rfl⟩

end KeyConsole.Dispatch.FiringOrder
