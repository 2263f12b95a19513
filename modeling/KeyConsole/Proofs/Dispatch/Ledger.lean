import KeyConsole.Proofs.Dispatch.ContextSwitch
import KeyConsole.Proofs.Dispatch.KeyEvents

/-!
# Proofs.Dispatch.Ledger: which bindings have come and gone

The journal tells of every binding that comes into the table and of every one that goes.  The table and what has gone
are together just what has come, state aside, and ids are given out in order.  So an id belongs to one binding, which
is in the table or has gone, and never both.
-/

namespace KeyConsole.Dispatch

/-- The binding that has come. -/
def Notice.added? : Notice → Option Binding
  | .added b => some b
  | _ => none

/-- The binding that has gone. -/
def Notice.removed? : Notice → Option Binding
  | .removed b => some b
  | _ => none

/-- A removal takes out the binding with the id and leaves the rest. -/
theorem Table.perm_remove {t : Table} (ht : t.Distinct) {b : Binding} (hb : b ∈ t.bindings) :
    t.bindings.Perm (b :: (t.remove b.id).bindings) := by
  obtain ⟨c, front, behind, -, hid, hsplit, herase⟩ :=
    List.exists_of_eraseP (p := (·.id = b.id)) hb (decide_eq_true rfl)
  have hc : c ∈ t.bindings := by simp [hsplit]
  obtain rfl : c = b := ht.eq_of_id hc hb (by simpa using hid)
  have hremove : (t.remove c.id).bindings = front ++ behind := herase
  rw [hremove, hsplit]
  exact List.perm_middle

namespace Dispatcher

open scoped List

variable {d d' d'' : Dispatcher} {id : Nat} {b c : Binding}

/-- The bindings that ids were issued for, in the order in which they came. -/
def issued (d : Dispatcher) : List Binding := d.journal.filterMap Notice.added?

/-- The bindings that have gone, in the order in which they did. -/
def retired (d : Dispatcher) : List Binding := d.journal.filterMap Notice.removed?

/-! ### What neither brings nor takes a binding -/

/-- No binding has come or gone. -/
structure Unedited (d d' : Dispatcher) : Prop where
  issued : d'.issued = d.issued
  retired : d'.retired = d.retired

namespace Unedited

theorem of_journal {ns : List Notice} (h : d'.journal = d.journal ++ ns)
    (hns : ∀ n ∈ ns, n.added? = none ∧ n.removed? = none) : Unedited d d' := by
  have hadded : ns.filterMap Notice.added? = [] := List.filterMap_eq_nil_iff.mpr fun n hn => (hns n hn).1
  have hremoved : ns.filterMap Notice.removed? = [] := List.filterMap_eq_nil_iff.mpr fun n hn => (hns n hn).2
  refine ⟨?_, ?_⟩
  · rw [Dispatcher.issued, h, List.filterMap_append, hadded, List.append_nil, Dispatcher.issued]
  · rw [Dispatcher.retired, h, List.filterMap_append, hremoved, List.append_nil, Dispatcher.retired]

theorem refl (d : Dispatcher) : Unedited d d := ⟨rfl, rfl⟩

theorem trans (h : Unedited d d') (h' : Unedited d' d'') : Unedited d d'' :=
  ⟨h'.issued.trans h.issued, h'.retired.trans h.retired⟩

theorem relayed (h : Relayed d d') : Unedited d d' := by
  obtain ⟨ns, hns, hrelay⟩ := h.told
  refine of_journal hns fun n hn => ?_
  have hn := hrelay n hn
  cases n <;> first | exact ⟨rfl, rfl⟩ | cases hn

end Unedited

theorem unedited_setState (d : Dispatcher) (id : Nat) (state : BindingState) (uiOnly : Bool) :
    Unedited d (setState id state uiOnly d).2 := by
  cases h : d.table.get? id with
  | none =>
    rw [setState_none h]
    exact .refl d
  | some b =>
    by_cases hkind : b.kind = .command ∧ state = .down
    · obtain ⟨hkind, rfl⟩ := hkind
      rw [setState_command h hkind]
      exact ⟨rfl, rfl⟩
    · refine Unedited.trans ?_ (.relayed (relayed_setState h hkind))
      have htold : ({ d with table := d.table.setState id state }.note (.transition id b.state state)).journal
          = d.journal ++ [.transition id b.state state] := rfl
      exact .of_journal htold (by simp [Notice.added?, Notice.removed?])

theorem unedited_alongChanges : AlongChanges Unedited where
  trans := Unedited.trans
  relayed := Unedited.relayed
  pressed _ _ _ := ⟨rfl, rfl⟩
  changed := unedited_setState

theorem unedited_setActiveContext {name : String} (h : setActiveContext name d = .ok d') : Unedited d d' := by
  have hactivated : Unedited d (activated name d) := ⟨rfl, rfl⟩
  obtain ⟨-, ⟨-, rfl⟩ | ⟨-, rfl⟩ | ⟨old, -, rfl⟩⟩ := setActiveContext_eq_ok h
  · exact .refl _
  · exact hactivated
  · exact hactivated.trans (unedited_alongChanges.raiseAll _ _)

/-! ### What edits bring and take -/

theorem issued_withBinding (d : Dispatcher) (b : Binding) (modified : List String) :
    (d.withBinding b modified).issued = d.issued ++ [b] := by
  simp [issued, withBinding, note, Notice.added?]

theorem retired_withBinding (d : Dispatcher) (b : Binding) (modified : List String) :
    (d.withBinding b modified).retired = d.retired := by
  simp [retired, withBinding, note, Notice.removed?]

theorem issued_withoutBinding (d : Dispatcher) (b : Binding) (modified : List String) :
    (d.withoutBinding b modified).issued = d.issued := by
  simp [issued, withoutBinding, note, Notice.added?]

theorem retired_withoutBinding (d : Dispatcher) (b : Binding) (modified : List String) :
    (d.withoutBinding b modified).retired = d.retired ++ [b] := by
  simp [retired, withoutBinding, note, Notice.removed?]

/-! ### The ledger -/

/-- Ids are given out in order, each for one binding that is made from a registration.  The bindings of the table and
those that have gone are, as they were when they came, the ones that ids were given out for. -/
structure Accounted (d : Dispatcher) : Prop where
  ids : d.issued.map (·.id) = List.range d.nextId
  made : ∀ b ∈ d.issued, ∃ r, Binding.ofRegistration? b.id r = some b
  balance : ((d.table.bindings ++ d.retired).map Binding.atRest).Perm d.issued

namespace Accounted

theorem alike (h : d.Accounted) (halike : d.table.Alike d'.table) (hnext : d'.nextId = d.nextId)
    (hsame : Unedited d d') : d'.Accounted where
  ids := by rw [hsame.issued, hnext, h.ids]
  made := by
    rw [hsame.issued]
    exact h.made
  balance := by
    rw [List.map_append, halike, hsame.retired, hsame.issued, ← List.map_append]
    exact h.balance

theorem edit (h : d.Accounted) (hs : d.Sound) (he : Edit d d') : d'.Accounted := by
  cases he with
  | @insert b r modified hb =>
    obtain ⟨hid, hup, -, -⟩ := ofRegistration?_eq_some hb
    have hrest : b.atRest = b := by rw [Binding.atRest, ← hup]
    have hnext : (d.withBinding b modified).nextId = d.nextId + 1 := rfl
    refine ⟨?_, ?_, ?_⟩
    · rw [issued_withBinding, List.map_append, h.ids, hnext, List.range_succ, List.map_singleton, hid]
    · rw [issued_withBinding, List.forall_mem_append, List.forall_mem_singleton]
      exact ⟨h.made, r, hid ▸ hb⟩
    · have hinsert : ((d.table.insert b).bindings ++ d.retired).Perm (b :: (d.table.bindings ++ d.retired)) :=
        (Ordered.perm_insertSorted Binding.precedes b d.table.bindings).append_right d.retired
      rw [issued_withBinding, retired_withBinding]
      calc ((d.table.insert b).bindings ++ d.retired).map Binding.atRest
        _ ~ b :: (d.table.bindings ++ d.retired).map Binding.atRest := by
          simpa only [List.map_cons, hrest] using hinsert.map Binding.atRest
        _ ~ b :: d.issued := h.balance.cons b
        _ ~ d.issued ++ [b] := (List.perm_append_singleton b d.issued).symm
  | @delete b modified hb =>
    refine ⟨?_, ?_, ?_⟩
    · rw [issued_withoutBinding]
      exact h.ids
    · rw [issued_withoutBinding]
      exact h.made
    · have hremove : ((d.table.remove b.id).bindings ++ (d.retired ++ [b])).Perm (d.table.bindings ++ d.retired) :=
        calc (d.table.remove b.id).bindings ++ (d.retired ++ [b])
          _ = (d.table.remove b.id).bindings ++ d.retired ++ [b] := (List.append_assoc _ _ _).symm
          _ ~ b :: ((d.table.remove b.id).bindings ++ d.retired) := List.perm_append_singleton b _
          _ ~ d.table.bindings ++ d.retired := (Table.perm_remove hs.distinct hb).symm.append_right d.retired
      rw [issued_withoutBinding, retired_withoutBinding]
      exact (hremove.map Binding.atRest).trans h.balance
  | putDown modified shipped => exact ⟨h.ids, h.made, h.balance⟩

theorem edited (h : d.Accounted) (hs : d.Sound) (he : Edited d d') : d'.Accounted := by
  induction he with
  | refl => exact h
  | tail hrow he ih => exact ih.edit (hs.edited hrow) he

/-! ### What an id finds -/

theorem nodup_issued (h : d.Accounted) : (d.issued.map (·.id)).Nodup := h.ids ▸ List.nodup_range

theorem nodup_ids (h : d.Accounted) : ((d.table.bindings ++ d.retired).map (·.id)).Nodup := by
  have hperm := h.balance.map (·.id)
  rw [List.map_map] at hperm
  exact hperm.nodup_iff.mpr h.nodup_issued

/-- An id that has been given out has been so for some binding. -/
theorem exists_issued (h : d.Accounted) (hid : id < d.nextId) : ∃ b ∈ d.issued, b.id = id := by
  have hmem : id ∈ d.issued.map (·.id) := by
    rw [h.ids]
    exact List.mem_range.mpr hid
  exact List.mem_map.mp hmem

/-- Nothing is found under the id of a binding that has gone. -/
theorem get?_retired (h : d.Accounted) (hb : b ∈ d.retired) : d.table.get? b.id = none := by
  refine Table.get?_eq_none_iff.mpr fun c hc hid => ?_
  have hnodup := h.nodup_ids
  rw [List.map_append, List.nodup_append] at hnodup
  exact hnodup.2.2 c.id (List.mem_map_of_mem hc) b.id (List.mem_map_of_mem hb) hid

/-- An id finds the binding that it was given out for, as it is now, until that has gone. -/
theorem get?_issued (h : d.Accounted) (hs : d.Sound) (hb : b ∈ d.issued) :
    (∃ c, d.table.get? b.id = some c ∧ c.atRest = b) ∨
      d.table.get? b.id = none ∧ ∃ c ∈ d.retired, c.atRest = b := by
  obtain ⟨c, hc, rfl⟩ := List.mem_map.mp (h.balance.mem_iff.mpr hb)
  rcases List.mem_append.mp hc with hc | hc
  · exact .inl ⟨c, hs.distinct.get?_eq_some hc, rfl⟩
  · have hgone : d.table.get? c.id = none := h.get?_retired hc
    exact .inr ⟨hgone, c, hc, rfl⟩

end Accounted

/-! ### Later ledgers -/

theorem issued_subset {ns : List Notice} (h : d'.journal = d.journal ++ ns) : d.issued ⊆ d'.issued := by
  rw [issued, issued, h, List.filterMap_append]
  exact List.subset_append_left _ _

theorem retired_subset {ns : List Notice} (h : d'.journal = d.journal ++ ns) : d.retired ⊆ d'.retired := by
  rw [retired, retired, h, List.filterMap_append]
  exact List.subset_append_left _ _

/-- What is not found any more under an id that has been given out is never found again. -/
theorem Accounted.gone {ns : List Notice} (h : d.Accounted) (hs : d.Sound) (h' : d'.Accounted)
    (hjournal : d'.journal = d.journal ++ ns) (hid : id < d.nextId) (hnone : d.table.get? id = none) :
    d'.table.get? id = none := by
  obtain ⟨b, hb, rfl⟩ := h.exists_issued hid
  rcases h.get?_issued hs hb with ⟨c, hc, -⟩ | ⟨-, c, hc, rfl⟩
  · rw [hnone] at hc
    cases hc
  · have hgone : d'.table.get? c.id = none := h'.get?_retired (retired_subset hjournal hc)
    exact hgone

end Dispatcher

end KeyConsole.Dispatch
