import KeyConsole.Proofs.Dispatch.FiringOrders

/-!
# Proofs.Dispatch.Cycles: where firing orders get stuck

The nodes that cannot be placed are those on a cycle and those behind one.  So a registry finds a fault just if the
binds of some function wait for one another in a cycle; it reports the first such function, with the owners of the
binds that lie on a cycle or have to come after one.
-/

namespace KeyConsole.Dispatch

namespace FiringOrder

variable {targets : List (List Nat)} {left : List Nat} {p : Progress} {i : Nat}

/-- The node lies on a cycle, or edges lead to it from one. -/
def BehindCycle (targets : List (List Nat)) (i : Nat) : Prop :=
  ∃ k, Relation.TransGen (Edge targets) k k ∧ Relation.ReflTransGen (Edge targets) k i

/-- A node behind a cycle waits for another one. -/
theorem BehindCycle.waits (h : BehindCycle targets i) : ∃ j, BehindCycle targets j ∧ Edge targets j i := by
  obtain ⟨k, hcycle, hway⟩ := h
  have hback : Relation.TransGen (Edge targets) k i := hcycle.trans_left hway
  obtain ⟨j, hj, hedge⟩ := Relation.TransGen.tail'_iff.mp hback
  exact ⟨j, ⟨k, hcycle, hj⟩, hedge⟩

/-- Nodes that wait for one another are not placed. -/
theorem not_mem_place {steps : Nat} {S : Nat → Prop} (h : Tracks targets left p)
    (hS : ∀ i, S i → i ∈ left ∧ ∃ j, S j ∧ Edge targets j i) : ∀ i ∈ (place targets steps p).1, ¬S i := by
  induction steps generalizing left p with
  | zero => exact fun i hi => (List.not_mem_nil hi).elim
  | succ steps ih =>
    cases hready : p.ready with
    | nil =>
      rw [place, hready]
      exact fun i hi => (List.not_mem_nil hi).elim
    | cons node ready =>
      obtain ⟨-, hfree⟩ := h.free (hready ▸ List.mem_cons_self)
      have hnode : ¬S node := by
        intro hnode
        obtain ⟨-, j, hj, hedge⟩ := hS node hnode
        exact hfree j (hS j hj).1 hedge
      have hrest : ∀ i, S i → i ∈ left.erase node ∧ ∃ j, S j ∧ Edge targets j i := by
        intro i hi
        have hne : i ≠ node := fun heq => hnode (heq ▸ hi)
        exact ⟨h.nodup.mem_erase_iff.mpr ⟨hne, (hS i hi).1⟩, (hS i hi).2⟩
      rw [place, hready]
      intro i hi
      rcases List.mem_cons.mp hi with rfl | hi
      · exact hnode
      · exact ih (h.next hready) hrest i hi

/-- If no node is ready, every node that is left is behind a cycle. -/
theorem Tracks.behindCycle (h : Tracks targets left p) (hready : p.ready = []) (hi : i ∈ left) :
    BehindCycle targets i := by
  classical
  -- those of the nodes from which edges lead to `i`
  let ahead := left.filter fun j => decide (Relation.ReflTransGen (Edge targets) j i)
  have hahead : ∀ {j}, j ∈ ahead ↔ j ∈ left ∧ Relation.ReflTransGen (Edge targets) j i := by
    intro j
    rw [List.mem_filter, decide_eq_true_eq]
  have hmem : i ∈ ahead := hahead.mpr ⟨hi, .refl⟩
  have hwaits : ∀ j ∈ ahead, ∃ b ∈ ahead, Edge targets b j := by
    intro j hj
    obtain ⟨hj, hway⟩ := hahead.mp hj
    obtain ⟨b, hb, hedge⟩ := h.waits hready j hj
    exact ⟨b, hahead.mpr ⟨hb, .head hedge hway⟩, hedge⟩
  obtain ⟨k, hk, hcycle⟩ := exists_cycle (List.ne_nil_of_mem hmem) hwaits
  exact ⟨k, hcycle, (hahead.mp hk).2⟩

/-- The nodes that are stuck are those behind a cycle, in ascending order. -/
theorem resolve_eq_error {stuck : List Nat} (hclosed : Closed targets) (h : resolve targets = .error stuck) :
    stuck.Sublist (List.range targets.length) ∧ ∀ i, i ∈ stuck ↔ BehindCycle targets i := by
  have hstart := tracks_start hclosed
  obtain ⟨others, htracks, hready, hperm⟩ := tracks_place hstart (List.length_range).le
  have hbehind : ∀ i, BehindCycle targets i → i ∈ List.range targets.length ∧
      ∃ j, BehindCycle targets j ∧ Edge targets j i := by
    intro i hi
    obtain ⟨j, hj, hedge⟩ := hi.waits
    exact ⟨List.mem_range.mpr (hclosed j i hedge), j, hj, hedge⟩
  have hothers : ∀ i, i ∈ others ↔ BehindCycle targets i := by
    refine fun i => ⟨htracks.behindCycle hready, fun hi => ?_⟩
    have hall := hperm.mem_iff.mpr (hbehind i hi).1
    exact (List.mem_append.mp hall).resolve_left fun hplaced => not_mem_place hstart hbehind i hplaced hi
  unfold resolve at h
  dsimp only at h
  split at h
  · cases h
  · cases h
    refine ⟨List.filter_sublist, fun i => ?_⟩
    rw [List.mem_filter, decide_eq_true_eq, htracks.edgesTo, gt_iff_lt, List.count_pos_iff, List.mem_flatMap]
    constructor
    · rintro ⟨-, j, hj, hedge⟩
      exact (hothers i).mp (htracks.closed j hj i hedge)
    · intro hi
      obtain ⟨hmem, j, hj, hedge⟩ := hbehind i hi
      exact ⟨hmem, j, (hothers j).mpr hj, hedge⟩

end FiringOrder

open FiringOrder (BehindCycle)

variable {α : Type}

/-! ### Lists without repetition -/

/-- Equal elements stand together. -/
inductive Grouped : List α → Prop where
  | nil : Grouped []
  | group (n : Nat) {a : α} {rest : List α} (hnew : a ∉ rest) (hrest : Grouped rest) :
      Grouped (List.replicate n a ++ rest)

theorem Grouped.sublist {xs ys : List α} (hys : Grouped ys) (h : xs.Sublist ys) : Grouped xs := by
  induction hys generalizing xs with
  | nil =>
    rw [List.sublist_nil.mp h]
    exact .nil
  | group n hnew _ ih =>
    obtain ⟨first, rest, rfl, hfirst, hrest⟩ := List.sublist_append_iff.mp h
    obtain ⟨m, -, rfl⟩ := List.sublist_replicate_iff.mp hfirst
    exact .group m (fun hmem => hnew (hrest.subset hmem)) (ih hrest)

theorem Grouped.append_replicate {xs : List α} {a : α} (hxs : Grouped xs) (ha : a ∉ xs) (n : Nat) :
    Grouped (xs ++ List.replicate n a) := by
  induction hxs with
  | nil =>
    rw [List.nil_append, ← List.append_nil (List.replicate n a)]
    exact .group n List.not_mem_nil .nil
  | @group m b rest hnew _ ih =>
    rw [List.append_assoc]
    obtain ⟨hb, hrest⟩ := not_or.mp (mt List.mem_append.mpr ha)
    by_cases hm : m = 0
    · subst hm
      exact ih hrest
    · refine .group m (fun hmem => ?_) (ih hrest)
      rcases List.mem_append.mp hmem with hmem | hmem
      · exact hnew hmem
      · exact hb (List.mem_replicate.mpr ⟨hm, (List.eq_of_mem_replicate hmem).symm⟩)

variable [DecidableEq α]

theorem nodup_eraseDups : ∀ xs : List α, xs.eraseDups.Nodup
  | [] => .nil
  | x :: xs => by
    rw [List.eraseDups_cons, List.nodup_cons, List.mem_eraseDups, List.mem_filter]
    exact ⟨fun h => by simp at h, nodup_eraseDups _⟩
termination_by xs => xs.length
decreasing_by exact Nat.lt_succ_of_le (List.length_filter_le ..)

/-- What comes first without repetition has come first. -/
theorem split_of_eraseDups : ∀ {xs front back : List α} {a : α}, xs.eraseDups = front ++ a :: back →
    ∃ before after, xs = before ++ a :: after ∧ ∀ x ∈ before, x ∈ front
  | [], front, back, a, h => by simp at h
  | x :: xs, [], back, a, h => by
    rw [List.eraseDups_cons] at h
    obtain ⟨rfl, -⟩ := List.cons_eq_cons.mp h
    exact ⟨[], xs, rfl, fun y hy => by cases hy⟩
  | x :: xs, y :: front, back, a, h => by
    rw [List.eraseDups_cons] at h
    obtain ⟨rfl, hrest⟩ := List.cons_eq_cons.mp h
    obtain ⟨inner, behind, hfilter, hinner⟩ := split_of_eraseDups hrest
    obtain ⟨first, second, rfl, rfl, hsecond⟩ := List.filter_eq_append_iff.mp hfilter
    obtain ⟨gap, after, rfl, hgap, -, -⟩ := List.filter_eq_cons_iff.mp hsecond
    refine ⟨x :: (first ++ gap), after, by simp, fun z hz => ?_⟩
    by_cases hzx : z = x
    · exact hzx ▸ List.mem_cons_self
    · rcases List.mem_append.mp ((List.mem_cons.mp hz).resolve_left hzx) with hz | hz
      · exact List.mem_cons_of_mem _ (hinner z (List.mem_filter.mpr ⟨hz, by simpa using hzx⟩))
      · exact absurd (by simpa using hzx) (hgap z hz)
termination_by xs => xs.length
decreasing_by exact Nat.lt_succ_of_le (List.length_filter_le ..)

theorem eraseDups_replicate_append {a : α} {rest : List α} (hnew : a ∉ rest) (n : Nat) :
    (List.replicate (n + 1) a ++ rest).eraseDups = a :: rest.eraseDups := by
  have hrest : rest.filter (fun b => !b == a) = rest :=
    List.filter_eq_self.mpr fun b hb => by simpa using ne_of_mem_of_not_mem hb hnew
  rw [List.replicate_succ, List.cons_append, List.eraseDups_cons, List.filter_append, hrest]
  simp

/-- Where equal elements stand together, leaving some out leaves the order of the others. -/
theorem Grouped.eraseDups_sublist {xs ys : List α} (hys : Grouped ys) (h : xs.Sublist ys) :
    xs.eraseDups.Sublist ys.eraseDups := by
  induction hys generalizing xs with
  | nil =>
    rw [List.sublist_nil.mp h]
  | @group n a rest hnew _ ih =>
    obtain ⟨first, others, rfl, hfirst, hothers⟩ := List.sublist_append_iff.mp h
    obtain ⟨m, hm, rfl⟩ := List.sublist_replicate_iff.mp hfirst
    have hnone : a ∉ others := fun hmem => hnew (hothers.subset hmem)
    match m, n with
    | 0, 0 => exact ih hothers
    | 0, n + 1 =>
      rw [eraseDups_replicate_append hnew]
      exact (ih hothers).cons a
    | m + 1, 0 => omega
    | m + 1, n + 1 =>
      rw [eraseDups_replicate_append hnew, eraseDups_replicate_append hnone]
      exact (ih hothers).cons_cons a

/-! ### Owners in the order of their registration -/

namespace RegistryCall

/-- The binds of an owner are registered together, so they stand together. -/
theorem grouped_run (calls : List RegistryCall) {r : Registry} (hfresh : r.Fresh)
    (h : Grouped (r.binds.map (·.owner))) : Grouped ((run calls r).binds.map (·.owner)) := by
  induction calls generalizing r with
  | nil => exact h
  | cons c calls ih =>
    obtain ⟨-, hbinds, hfresh'⟩ := ask_eq_afresh hfresh c
    refine ih hfresh' ?_
    rw [hbinds]
    cases c with
    | register owner new =>
      simp only [askAfresh]
      split
      · exact h
      · rename_i hnone
        have howners : (new.map (OwnedBind.mk owner)).map (·.owner) = List.replicate new.length owner := by
          rw [List.map_map]
          exact List.map_const' ..
        have hnew : owner ∉ r.binds.map (·.owner) := by
          intro hmem
          obtain ⟨b, hb, hb'⟩ := List.mem_map.mp hmem
          exact hnone (List.any_eq_true.mpr ⟨b, hb, decide_eq_true hb'⟩)
        rw [List.map_append, howners]
        exact h.append_replicate hnew _
    | unregister owner => exact h.sublist (List.filter_sublist.map _)
    | handlersFor function => exact h
    | hasHandlers function => exact h
    | tryResolve => exact h

end RegistryCall

/-! ### Functions with a cycle -/

namespace Registry

variable {r : Registry} {function : String} {fault : RegistryFault}

/-- Some binds of the function wait for one another in a cycle. -/
def Cyclic (r : Registry) (function : String) : Prop :=
  ∃ i, Relation.TransGen (FiresBefore (r.bindsFor function)) i i

/-- The owner has a bind for the function that lies on a cycle, or has to come after one that does. -/
def HeldUp (r : Registry) (function owner : String) : Prop :=
  ∃ k i b, Relation.TransGen (FiresBefore (r.bindsFor function)) k k ∧
    Relation.ReflTransGen (FiresBefore (r.bindsFor function)) k i ∧
      (r.bindsFor function)[i]? = some b ∧ b.owner = owner

theorem ordered_of_not_cyclic (h : ¬r.Cyclic function) : ∃ binds, r.ordered function = .ok binds := by
  obtain ⟨order, hresolve, -⟩ := FiringOrder.resolve_acyclic closed_edges (acyclic_edges.mpr (not_exists.mp h))
  refine ⟨order.filterMap ((r.bindsFor function)[·]?), ?_⟩
  simp only [ordered, hresolve]

theorem filterMap_getElem?_range (binds : List OwnedBind) :
    (List.range binds.length).filterMap (binds[·]?) = binds := by
  induction binds with
  | nil => rfl
  | cons b rest ih =>
    rw [List.length_cons, List.range_succ_eq_map, List.filterMap_cons_some (by rfl), List.filterMap_map]
    exact congrArg (b :: ·) ih

/-- A function cannot be ordered just if it has a cycle, and then its owners that are held up are reported. -/
theorem ordered_eq_error (h : r.ordered function = .error fault) :
    r.Cyclic function ∧ ∃ owners : List String, fault = .cycle function owners.eraseDups ∧
      owners.Sublist ((r.bindsFor function).map (·.owner)) ∧ ∀ o, o ∈ owners ↔ r.HeldUp function o := by
  have hcyclic : r.Cyclic function := by
    by_contra hnone
    obtain ⟨binds, hok⟩ := ordered_of_not_cyclic hnone
    rw [hok] at h
    cases h
  unfold ordered at h
  dsimp only at h
  split at h
  · cases h
  · rename_i stuck hstuck
    cases h
    obtain ⟨hsublist, hmem⟩ := FiringOrder.resolve_eq_error closed_edges hstuck
    rw [length_edges] at hsublist
    refine ⟨hcyclic, _, rfl, ?_, fun o => ?_⟩
    · have hbinds := hsublist.filterMap ((r.bindsFor function)[·]?)
      rw [filterMap_getElem?_range] at hbinds
      exact hbinds.map _
    · simp only [List.mem_map, List.mem_filterMap, hmem, BehindCycle, edge_edges_eq]
      constructor
      · rintro ⟨b, ⟨i, ⟨k, hcycle, hway⟩, hb⟩, rfl⟩
        exact ⟨k, i, b, hcycle, hway, hb, rfl⟩
      · rintro ⟨k, i, b, hcycle, hway, hb, rfl⟩
        exact ⟨b, ⟨i, ⟨k, hcycle, hway⟩, hb⟩, rfl⟩

theorem ordered_ok_iff : (∃ binds, r.ordered function = .ok binds) ↔ ¬r.Cyclic function := by
  refine ⟨fun ⟨binds, hok⟩ ⟨i, hcycle⟩ => ?_, ordered_of_not_cyclic⟩
  have hcyclic : ¬FiringOrder.Acyclic (edges (r.bindsFor function)) := fun hacyclic =>
    acyclic_edges.mp hacyclic i hcycle
  obtain ⟨stuck, hresolve⟩ := FiringOrder.resolve_cyclic closed_edges hcyclic
  simp only [ordered, hresolve] at hok
  cases hok

/-- A function with a cycle has binds. -/
theorem Cyclic.mem_functions (h : r.Cyclic function) : function ∈ r.functions := by
  obtain ⟨i, hcycle⟩ := h
  obtain ⟨j, -, hlast⟩ := Relation.TransGen.tail'_iff.mp hcycle
  obtain ⟨-, c, b, -, hb, -⟩ := hlast
  obtain ⟨hmem, hfunction⟩ := List.mem_filter.mp (List.mem_of_getElem? hb)
  rw [functions, List.mem_eraseDups, ← of_decide_eq_true hfunction]
  exact List.mem_map_of_mem hmem

/-! ### The fault of a registry -/

theorem tryResolve_eq_none_iff :
    r.tryResolve.1 = none ↔ ∀ function ∈ r.functions, ∃ binds, r.ordered function = .ok binds := by
  refine List.findSome?_eq_none_iff.trans (forall₂_congr fun function _ => ?_)
  cases r.ordered function with
  | ok binds => simp
  | error e => simp

/-- The fault is that of the first function that cannot be ordered. -/
theorem tryResolve_eq_some (h : r.tryResolve.1 = some fault) :
    ∃ front function back, r.functions = front ++ function :: back ∧ r.ordered function = .error fault ∧
      ∀ f ∈ front, ∃ binds, r.ordered f = .ok binds := by
  obtain ⟨front, function, back, hfunctions, herror, hfirst⟩ := List.findSome?_eq_some_iff.mp h
  refine ⟨front, function, back, hfunctions, ?_, fun f hf => ?_⟩
  · cases hordered : r.ordered function with
    | ok binds => simp [hordered] at herror
    | error e => simpa [hordered] using herror
  · have hnone := hfirst f hf
    cases hordered : r.ordered f with
    | ok binds => exact ⟨binds, rfl⟩
    | error e => simp [hordered] at hnone

end Registry

open Registry (Cyclic HeldUp)

/-- Cycles are found exactly.  Whatever was registered, resolving finds no fault just if no function has a cycle.
Otherwise it reports, of the functions with a cycle, the one with the first bind, and the owners that are held up
there, each once, in the order of their registration. -/
theorem cycles_are_found_exactly (calls : List RegistryCall) :
    ((RegistryCall.run calls {}).tryResolve.1 = none ↔
        ∀ function, ¬(RegistryCall.run calls {}).Cyclic function) ∧
      ∀ fault, (RegistryCall.run calls {}).tryResolve.1 = some fault →
        ∃ function owners, fault = .cycle function owners ∧
          (RegistryCall.run calls {}).Cyclic function ∧
          (∃ before b after, (RegistryCall.run calls {}).binds = before ++ b :: after ∧ b.bind.function = function ∧
            ∀ c ∈ before, ¬(RegistryCall.run calls {}).Cyclic c.bind.function) ∧
          owners.Nodup ∧ owners.Sublist (RegistryCall.run calls {}).owners ∧
          ∀ o, o ∈ owners ↔ (RegistryCall.run calls {}).HeldUp function o := by
  have hgrouped := RegistryCall.grouped_run calls RegistryCall.fresh_empty .nil
  generalize RegistryCall.run calls {} = r at hgrouped ⊢
  constructor
  · refine Registry.tryResolve_eq_none_iff.trans ⟨fun h function hcyclic => ?_, fun h function _ => ?_⟩
    · exact Registry.ordered_ok_iff.mp (h function hcyclic.mem_functions) hcyclic
    · exact Registry.ordered_ok_iff.mpr (h function)
  · intro fault hfault
    obtain ⟨front, function, back, hfunctions, hordered, hfirst⟩ := Registry.tryResolve_eq_some hfault
    obtain ⟨hcyclic, owners, rfl, hsublist, hmem⟩ := Registry.ordered_eq_error hordered
    obtain ⟨names, others, hsplit, hnames⟩ := split_of_eraseDups hfunctions
    obtain ⟨before, rest, hbinds, rfl, hrest⟩ := List.map_eq_append_iff.mp hsplit
    obtain ⟨b, after, rfl, hb, -⟩ := List.map_eq_cons_iff.mp hrest
    refine ⟨function, owners.eraseDups, rfl, hcyclic, ⟨before, b, after, hbinds, hb, fun c hc => ?_⟩,
      nodup_eraseDups owners, ?_, fun o => ?_⟩
    · exact Registry.ordered_ok_iff.mp (hfirst _ (hnames _ (List.mem_map_of_mem hc)))
    · exact hgrouped.eraseDups_sublist (hsublist.trans (List.filter_sublist.map _))
    · rw [List.mem_eraseDups, hmem]

/-- `A` and `B` wait for each other, `C` waits for `B`, and `D` for nobody. -/
example : (Registry.tryResolve { binds := [
      ⟨"D", { function := "Use", handler := .press "d" }⟩,
      ⟨"C", { function := "Use", handler := .press "c", after := ["B"] }⟩,
      ⟨"A", { function := "Use", handler := .press "a", after := ["B"] }⟩,
      ⟨"B", { function := "Use", handler := .press "b", after := ["A"] }⟩] }).1
    = some (.cycle "Use" ["C", "A", "B"]) := by decide +kernel

end KeyConsole.Dispatch
