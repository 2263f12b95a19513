import KeyConsole.Proofs.Dispatch.Editing
import KeyConsole.Proofs.Ordered.StableInsertion

/-!
# Proofs.Dispatch.Listing: what is bound to a function, in table order

The table is in order, so what comes into it takes its place among the bindings of its function as if they were
alone.  The shape of a binding is all of it but its id and its state.
-/

namespace KeyConsole.Dispatch

open Ordered (InOrder Ranks insertSorted insertAll)

namespace Binding

variable {a b : Binding}

/-- The binding without its id and its state. -/
def shape (b : Binding) : Binding := { b with id := 0, state := .up }

theorem precedes_shape (a b : Binding) : precedes a.shape b.shape = precedes a b := rfl

theorem precedes_iff : precedes a b ↔ b.combo.packed.toNat < a.combo.packed.toNat ∨
    a.combo.packed.toNat = b.combo.packed.toNat ∧ b.priority ≤ a.priority := by
  simp only [precedes, Bool.or_eq_true, Bool.and_eq_true, decide_eq_true_eq, UInt32.lt_iff_toNat_lt,
    UInt32.toNat_inj]

theorem ranks_precedes : Ranks precedes where
  total a b := by
    rw [precedes_iff, precedes_iff]
    omega
  trans := by
    intro a b c hab hbc
    rw [precedes_iff] at hab hbc ⊢
    omega

/-- The shape that a registration comes to; none if it has no base key. -/
def shape? (r : Registration) : Option Binding := ofRegistration? 0 r

theorem shape?_eq (id : Nat) (r : Registration) : shape? r = (ofRegistration? id r).map shape := by
  unfold shape? ofRegistration?
  rw [Option.map_map]
  rfl

/-- A packed binding is what its registration comes to. -/
theorem shape?_toRegistration (h : b.combo.Packed) : shape? b.toRegistration = some b.shape := by
  unfold shape? ofRegistration? toRegistration
  rw [h.pack?_slots]
  rfl

end Binding

/-- The shapes that the registrations of a function come to. -/
def shapesOf (function : String) (rs : List Registration) : List Binding :=
  (rs.filter (·.function = function)).filterMap Binding.shape?

theorem shapesOf_cons (function : String) (r : Registration) (rs : List Registration) :
    shapesOf function (r :: rs) = shapesOf function [r] ++ shapesOf function rs := by
  rw [shapesOf, ← List.singleton_append, List.filter_append, List.filterMap_append]
  rfl

theorem function_of_mem_shapesOf {function : String} {rs : List Registration} {b : Binding}
    (hb : b ∈ shapesOf function rs) : b.function = function := by
  obtain ⟨r, hr, hshape⟩ := List.mem_filterMap.mp hb
  rw [(Dispatcher.ofRegistration?_eq_some hshape).2.2.1]
  exact of_decide_eq_true (List.mem_filter.mp hr).2

namespace Table

variable {t t' : Table} {b : Binding} {function : String}

/-- Every binding may stand before those behind it. -/
def Sorted (t : Table) : Prop := InOrder Binding.precedes t.bindings

/-- The shapes of the bindings of a function. -/
def shapesFor (t : Table) (function : String) : List Binding := (t.bindingsFor function).map Binding.shape

theorem sorted_insert (ht : t.Sorted) (b : Binding) : (t.insert b).Sorted :=
  Ordered.inOrder_insertSorted Binding.ranks_precedes ht

theorem sorted_remove (ht : t.Sorted) (id : Nat) : (t.remove id).Sorted :=
  ht.sublist List.eraseP_sublist

theorem Alike.sorted (h : t.Alike t') (ht : t.Sorted) : t'.Sorted := by
  have hmap : ∀ bs : List Binding,
      InOrder Binding.precedes (bs.map Binding.atRest) ↔ InOrder Binding.precedes bs :=
    fun _ => List.pairwise_map
  unfold Sorted at ht ⊢
  rw [← hmap, h, hmap]
  exact ht

theorem Alike.shapesFor (h : t.Alike t') (function : String) : t'.shapesFor function = t.shapesFor function := by
  have hmap : ∀ bs : List Binding, (bs.filter (·.function = function)).map Binding.shape
      = ((bs.map Binding.atRest).filter (·.function = function)).map Binding.shape := by
    intro bs
    rw [List.filter_map, List.map_map]
    rfl
  rw [Table.shapesFor, bindingsFor, hmap, h, ← hmap]
  rfl

theorem inOrder_shapesFor (ht : t.Sorted) (function : String) :
    InOrder Binding.precedes (t.shapesFor function) :=
  List.pairwise_map.mpr (ht.sublist List.filter_sublist)

/-- A binding takes its place among those of its function. -/
theorem shapesFor_insert (ht : t.Sorted) (b : Binding) (function : String) :
    (t.insert b).shapesFor function
      = if b.function = function then insertSorted Binding.precedes b.shape (t.shapesFor function)
        else t.shapesFor function := by
  unfold shapesFor bindingsFor insert
  rw [Ordered.filter_insertSorted Binding.ranks_precedes ht]
  by_cases hb : b.function = function
  · rw [if_pos (by simpa using hb), if_pos hb, Ordered.map_insertSorted Binding.precedes_shape]
  · rw [if_neg (by simpa using hb), if_neg hb]

theorem shapesFor_remove (ht : t.Distinct) (hb : b ∈ t.bindings) (hne : b.function ≠ function) :
    (t.remove b.id).shapesFor function = t.shapesFor function := by
  unfold shapesFor bindingsFor
  rw [remove_bindings ht, List.filter_filter]
  congr 1
  refine List.filter_congr fun c hc => ?_
  by_cases hid : c.id = b.id
  · obtain rfl := ht.eq_of_id hc hb hid
    simp [hne]
  · simp [hid]

theorem registrations_of_shapesFor (h : t.shapesFor function = t'.shapesFor function) :
    (t.bindingsFor function).map Binding.toRegistration = (t'.bindingsFor function).map Binding.toRegistration := by
  have hshape : Binding.toRegistration ∘ Binding.shape = Binding.toRegistration := rfl
  rw [← hshape, ← List.map_map, ← List.map_map]
  exact congrArg (List.map Binding.toRegistration) h

end Table

namespace Dispatcher

variable {d d' : Dispatcher} {function : String}

/-! ### Registrations -/

/-- Some registrations are inserted, one after the other. -/
def insertAll (byUser : Bool) (rs : List Registration) (d : Dispatcher) : Dispatcher :=
  rs.foldl (fun d r => (d.insertBinding r byUser).elim d (·.2)) d

theorem sorted_edited (h : Edited d d') (hd : d.table.Sorted) : d'.table.Sorted := by
  induction h with
  | refl => exact hd
  | tail _ h ih =>
    cases h with
    | insert r modified h => exact Table.sorted_insert ih _
    | delete modified h => exact Table.sorted_remove ih _
    | putDown modified shipped => exact ih

theorem shapesFor_insertBinding (hd : d.table.Sorted) (r : Registration) (byUser : Bool) (function : String) :
    ((d.insertBinding r byUser).elim d (·.2)).table.shapesFor function
      = Ordered.insertAll Binding.precedes (shapesOf function [r]) (d.table.shapesFor function) := by
  have hshape := Binding.shape?_eq d.nextId r
  cases hb : Binding.ofRegistration? d.nextId r with
  | none =>
    rw [hb] at hshape
    have hnone : shapesOf function [r] = [] := by
      by_cases hf : r.function = function <;> simp [shapesOf, hf, hshape]
    simp [insertBinding, hb, hnone, Ordered.insertAll]
  | some b =>
    rw [hb] at hshape
    have hfunction := (ofRegistration?_eq_some hb).2.2.1
    simp only [insertBinding, hb, Option.map_some, Option.elim_some, note]
    rw [Table.shapesFor_insert hd, hfunction]
    by_cases hf : r.function = function
    · simp [shapesOf, hf, hshape, Ordered.insertAll]
    · simp [shapesOf, hf, Ordered.insertAll]

theorem shapesFor_insertAll (hd : d.table.Sorted) (byUser : Bool) (rs : List Registration) (function : String) :
    (insertAll byUser rs d).table.shapesFor function
      = Ordered.insertAll Binding.precedes (shapesOf function rs) (d.table.shapesFor function) := by
  induction rs generalizing d with
  | nil => rfl
  | cons r rs ih =>
    have hd' := sorted_edited (Edited.insertBinding r byUser d) hd
    have hrest := ih hd'
    rw [shapesFor_insertBinding hd] at hrest
    rw [shapesOf_cons, Ordered.insertAll_append]
    exact hrest

/-- Insertion touches the table, the next id, what counts as modified, and the journal. -/
theorem insertBinding_rest (r : Registration) (byUser : Bool) (d : Dispatcher) :
    (d.insertBinding r byUser).elim d (·.2) = { d with
      table := ((d.insertBinding r byUser).elim d (·.2)).table
      nextId := ((d.insertBinding r byUser).elim d (·.2)).nextId
      modified := ((d.insertBinding r byUser).elim d (·.2)).modified
      journal := ((d.insertBinding r byUser).elim d (·.2)).journal } := by
  cases h : d.insertBinding r byUser with
  | none => rfl
  | some p =>
    obtain ⟨-, b, hb, heq⟩ := insertBinding_eq_some h
    rw [Option.elim_some, heq]
    rfl

theorem insertAll_cons (byUser : Bool) (r : Registration) (rs : List Registration) (d : Dispatcher) :
    insertAll byUser (r :: rs) d = insertAll byUser rs ((d.insertBinding r byUser).elim d (·.2)) := rfl

theorem shipped_insertAll (byUser : Bool) (rs : List Registration) (d : Dispatcher) :
    (insertAll byUser rs d).shipped = d.shipped := by
  induction rs generalizing d with
  | nil => rfl
  | cons r rs ih =>
    rw [insertAll_cons, ih, insertBinding_rest]

theorem modified_insertBinding (r : Registration) (d : Dispatcher) :
    ((d.insertBinding r false).elim d (·.2)).modified = d.modified := by
  cases h : d.insertBinding r false with
  | none => rfl
  | some p =>
    obtain ⟨-, b, -, heq⟩ := insertBinding_eq_some h
    rw [Option.elim_some, heq]
    rfl

theorem modified_insertAll (rs : List Registration) (d : Dispatcher) :
    (insertAll false rs d).modified = d.modified := by
  induction rs generalizing d with
  | nil => rfl
  | cons r rs ih => rw [insertAll_cons, ih, modified_insertBinding]

theorem subset_insertBinding (r : Registration) (byUser : Bool) (d : Dispatcher) :
    d.table.bindings ⊆ ((d.insertBinding r byUser).elim d (·.2)).table.bindings := by
  cases h : d.insertBinding r byUser with
  | none => exact List.Subset.refl _
  | some p =>
    obtain ⟨-, b, -, heq⟩ := insertBinding_eq_some h
    rw [Option.elim_some, heq]
    exact fun c hc => (Table.mem_insert c).mpr (.inr hc)

theorem subset_insertAll (byUser : Bool) (rs : List Registration) (d : Dispatcher) :
    d.table.bindings ⊆ (insertAll byUser rs d).table.bindings := by
  induction rs generalizing d with
  | nil => exact List.Subset.refl _
  | cons r rs ih => exact List.Subset.trans (subset_insertBinding r byUser d) (ih _)

theorem mem_withName {names : List String} {name n : String} : n ∈ withName names name ↔ n ∈ names ∨ n = name := by
  unfold withName
  split
  · rename_i h
    refine ⟨.inl, ?_⟩
    rintro (hn | rfl)
    · exact hn
    · simpa using h
  · simp

/-- What the user registers counts as modified, if it can be registered at all. -/
theorem mem_modified_insertBinding {r : Registration} :
    function ∈ ((d.insertBinding r true).elim d (·.2)).modified ↔
      function ∈ d.modified ∨ shapesOf function [r] ≠ [] := by
  have hshape := Binding.shape?_eq d.nextId r
  cases hb : Binding.ofRegistration? d.nextId r with
  | none =>
    rw [hb] at hshape
    by_cases hf : r.function = function <;> simp [insertBinding, hb, shapesOf, hf, hshape]
  | some b =>
    rw [hb] at hshape
    simp only [insertBinding, hb, Option.map_some, Option.elim_some, note, if_true]
    rw [mem_withName]
    by_cases hf : r.function = function
    · simp [shapesOf, hf, hshape]
    · simp [shapesOf, hf, Ne.symm hf]

theorem mem_modified_insertAll {rs : List Registration} :
    function ∈ (insertAll true rs d).modified ↔ function ∈ d.modified ∨ shapesOf function rs ≠ [] := by
  induction rs generalizing d with
  | nil => simp [insertAll, shapesOf]
  | cons r rs ih =>
    have hsplit : shapesOf function (r :: rs) ≠ [] ↔ shapesOf function [r] ≠ [] ∨ shapesOf function rs ≠ [] := by
      rw [shapesOf_cons, ne_eq, List.append_eq_nil_iff, not_and_or]
    rw [insertAll_cons, ih, mem_modified_insertBinding, hsplit, or_assoc]

/-! ### Resets -/

/-- Some bindings are taken out, and it is not the user who does so. -/
def deleteAll (ids : List Nat) (d : Dispatcher) : Dispatcher :=
  ids.foldl (fun d id => (d.deleteBinding id false).elim d (·.2)) d

theorem deleteBinding_rest (hd : d.table.Distinct) (id : Nat) :
    (d.deleteBinding id false).elim d (·.2) = { d with
      table := ⟨d.table.bindings.filter (·.id ≠ id)⟩
      journal := ((d.deleteBinding id false).elim d (·.2)).journal } := by
  cases h : d.table.get? id with
  | none =>
    have hkept : d.table.bindings.filter (·.id ≠ id) = d.table.bindings := by
      rw [List.filter_eq_self]
      intro b hb
      simpa using Table.get?_eq_none_iff.mp h b hb
    simp only [deleteBinding, h, Option.map_none, Option.elim_none]
    rw [hkept]
  | some b =>
    have hremoved : d.table.remove id = ⟨d.table.bindings.filter (·.id ≠ id)⟩ :=
      congrArg Table.mk (Table.remove_bindings hd)
    simp only [deleteBinding, h, Option.map_some, Option.elim_some, note]
    rw [hremoved]
    rfl

theorem deleteAll_rest (hd : d.table.Distinct) (ids : List Nat) :
    deleteAll ids d = { d with
      table := ⟨d.table.bindings.filter (·.id ∉ ids)⟩
      journal := (deleteAll ids d).journal } := by
  induction ids generalizing d with
  | nil => simp [deleteAll]
  | cons id ids ih =>
    have hfirst := deleteBinding_rest hd id
    have hdistinct : Table.Distinct ⟨d.table.bindings.filter (·.id ≠ id)⟩ :=
      hd.sublist (List.filter_sublist.map _)
    have hcons : deleteAll (id :: ids) d = deleteAll ids ((d.deleteBinding id false).elim d (·.2)) := rfl
    rw [hcons]
    generalize (d.deleteBinding id false).elim d (·.2) = e at hfirst ⊢
    have htable : e.table = ⟨d.table.bindings.filter (·.id ≠ id)⟩ := (congrArg Dispatcher.table hfirst :)
    have hrest := ih (htable ▸ hdistinct)
    have hfilter : e.table.bindings.filter (·.id ∉ ids) = d.table.bindings.filter (·.id ∉ id :: ids) := by
      rw [htable, List.filter_filter]
      refine List.filter_congr fun b _ => ?_
      simp [Bool.and_comm]
    rw [hrest, hfilter, hfirst]

/-- The dispatcher without the bindings of a function. -/
def cleared (function : String) (d : Dispatcher) : Dispatcher :=
  deleteAll ((d.table.bindingsFor function).map (·.id)) d

theorem cleared_rest (hd : d.table.Distinct) (function : String) :
    cleared function d = { d with
      table := ⟨d.table.bindings.filter (·.function ≠ function)⟩
      journal := (cleared function d).journal } := by
  have hfilter : d.table.bindings.filter (·.id ∉ (d.table.bindingsFor function).map (·.id))
      = d.table.bindings.filter (·.function ≠ function) := by
    refine List.filter_congr fun b hb => ?_
    rw [decide_eq_decide, not_iff_not, List.mem_map]
    refine ⟨?_, fun hf => ⟨b, List.mem_filter.mpr ⟨hb, by simpa using hf⟩, rfl⟩⟩
    rintro ⟨c, hc, hid⟩
    obtain ⟨hc, hf⟩ := List.mem_filter.mp hc
    obtain rfl := hd.eq_of_id hc hb hid
    simpa using hf
  have hall := deleteAll_rest hd ((d.table.bindingsFor function).map (·.id))
  rw [hfilter] at hall
  exact hall

theorem shapesFor_cleared (hd : d.table.Distinct) (function other : String) :
    (cleared function d).table.shapesFor other
      = if other = function then [] else d.table.shapesFor other := by
  have htable : (cleared function d).table = ⟨d.table.bindings.filter (·.function ≠ function)⟩ :=
    (congrArg Dispatcher.table (cleared_rest hd function) :)
  rw [htable]
  unfold Table.shapesFor Table.bindingsFor
  rw [List.filter_filter]
  split
  · rename_i hf
    rw [List.map_eq_nil_iff, List.filter_eq_nil_iff]
    rintro b - hb
    simp [hf] at hb
  · rename_i hf
    congr 1
    refine List.filter_congr fun b _ => ?_
    by_cases hb : b.function = other <;> simp [hb, hf]

theorem shapesOf_filter (function other : String) (rs : List Registration) :
    shapesOf other (rs.filter (·.function = function)) = if other = function then shapesOf other rs else [] := by
  unfold shapesOf
  rw [List.filter_filter]
  split
  · rename_i hf
    congr 2
    funext r
    simp [hf]
  · rename_i hf
    have hnone : rs.filter (fun r => decide (r.function = other) && decide (r.function = function)) = [] := by
      rw [List.filter_eq_nil_iff]
      rintro r - hr
      simp only [Bool.and_eq_true, decide_eq_true_eq] at hr
      exact hf (hr.1.symm.trans hr.2)
    rw [hnone]
    rfl

theorem resetFunction_eq (d : Dispatcher) (function : String) :
    d.resetFunction function = insertAll false ((cleared function d).shipped.filter (·.function = function))
      { cleared function d with modified := (cleared function d).modified.filter (· ≠ function) } := rfl

theorem modified_resetFunction (hd : d.table.Distinct) (function : String) :
    (d.resetFunction function).modified = d.modified.filter (· ≠ function) := by
  rw [resetFunction_eq, modified_insertAll, cleared_rest hd]

theorem shipped_resetFunction (hd : d.table.Distinct) (function : String) :
    (d.resetFunction function).shipped = d.shipped := by
  rw [resetFunction_eq, shipped_insertAll, cleared_rest hd]

theorem shipped_resetFunctions (hs : d.Sound) (functions : List String) :
    (d.resetFunctions functions).shipped = d.shipped := by
  induction functions generalizing d with
  | nil => rfl
  | cons f fs ih =>
    have hrest := ih (hs.edited (Edited.resetFunction d f))
    rw [shipped_resetFunction hs.distinct] at hrest
    exact hrest

theorem modified_resetFunctions (hs : d.Sound) (functions : List String) :
    (d.resetFunctions functions).modified = d.modified.filter (· ∉ functions) := by
  induction functions generalizing d with
  | nil => exact (List.filter_eq_self.mpr (by simp)).symm
  | cons f fs ih =>
    have hrest := ih (hs.edited (Edited.resetFunction d f))
    rw [modified_resetFunction hs.distinct, List.filter_filter] at hrest
    refine hrest.trans (List.filter_congr fun g _ => ?_)
    simp [Bool.and_comm]

/-- A reset gives a function its shipped bindings back and leaves all others theirs. -/
theorem shapesFor_resetFunction (hd : d.table.Distinct) (ht : d.table.Sorted) (function other : String) :
    (d.resetFunction function).table.shapesFor other
      = if other = function then Ordered.sorted Binding.precedes (shapesOf other d.shipped)
        else d.table.shapesFor other := by
  have hsorted : (cleared function d).table.Sorted := sorted_edited (Edited.deleteAll _ d) ht
  have hshipped : (cleared function d).shipped = d.shipped :=
    (congrArg Dispatcher.shipped (cleared_rest hd function) :)
  have hinserted := shapesFor_insertAll
    (d := { cleared function d with modified := (cleared function d).modified.filter (· ≠ function) }) hsorted
    false ((cleared function d).shipped.filter (·.function = function)) other
  rw [resetFunction_eq, hinserted, shapesFor_cleared hd, hshipped, shapesOf_filter]
  split <;> rfl

/-- A reset takes out the bindings of the function, and none of them comes back. -/
theorem get?_resetFunction (hs : d.Sound) {b : Binding} (hb : b ∈ d.table.bindings) (function : String) :
    (d.resetFunction function).table.get? b.id = if b.function = function then none else some b := by
  have hedited := Edited.resetFunction d function
  have htable : (cleared function d).table = ⟨d.table.bindings.filter (·.function ≠ function)⟩ :=
    (congrArg Dispatcher.table (cleared_rest hs.distinct function) :)
  split
  · rename_i hfunction
    have hnext : (cleared function d).nextId = d.nextId :=
      (congrArg Dispatcher.nextId (cleared_rest hs.distinct function) :)
    have hgone : (cleared function d).table.get? b.id = none := by
      rw [htable, Table.get?_eq_none_iff]
      intro c hc hid
      obtain ⟨hc, hkept⟩ := List.mem_filter.mp hc
      obtain rfl := hs.distinct.eq_of_id hc hb hid
      simp [hfunction] at hkept
    have hold : b.id < (cleared function d).nextId := hnext ▸ hs.fresh b hb
    rw [resetFunction_eq]
    exact (Edited.insertAll _ _).gone
      (d := { cleared function d with modified := (cleared function d).modified.filter (· ≠ function) }) hold hgone
  · rename_i hfunction
    have hkept : b ∈ (cleared function d).table.bindings := by
      rw [htable]
      exact List.mem_filter.mpr ⟨hb, by simpa using hfunction⟩
    have hmem : b ∈ (d.resetFunction function).table.bindings := by
      rw [resetFunction_eq]
      exact subset_insertAll false _
        { cleared function d with modified := (cleared function d).modified.filter (· ≠ function) } hkept
    exact (hs.edited hedited).distinct.get?_eq_some hmem

theorem get?_resetFunctions (hs : d.Sound) {b : Binding} (hb : b ∈ d.table.bindings) (functions : List String) :
    (d.resetFunctions functions).table.get? b.id = if b.function ∈ functions then none else some b := by
  induction functions generalizing d with
  | nil => exact hs.distinct.get?_eq_some hb
  | cons f fs ih =>
    have hedited := Edited.resetFunction d f
    have hfirst := get?_resetFunction hs hb f
    have hcons : d.resetFunctions (f :: fs) = (d.resetFunction f).resetFunctions fs := rfl
    rw [hcons]
    by_cases hf : b.function = f
    · rw [if_pos hf] at hfirst
      rw [if_pos (by simp [hf])]
      exact (Edited.resetFunctions fs _).gone (Nat.lt_of_lt_of_le (hs.fresh b hb) hedited.nextId_le) hfirst
    · rw [if_neg hf] at hfirst
      rw [ih (hs.edited hedited) (Table.get?_mem hfirst).1]
      simp [hf]

end Dispatcher

end KeyConsole.Dispatch
