import KeyConsole.Dispatch.Table
import Mathlib.Data.List.Nodup

/-!
# Proofs.Dispatch.TableStates: bindings by their ids and in their states

Where ids are distinct, an id finds the one binding that has it, and setting its state turns this binding and
no other.  `Table.Alike` relates tables whose bindings differ in their states only.
-/

namespace KeyConsole.Dispatch

namespace Binding

/-- The binding in a state if it has the id. -/
def turned (id : Nat) (state : BindingState) (b : Binding) : Binding :=
  if b.id = id then { b with state } else b

/-- The binding as it is when it comes into a table. -/
def atRest (b : Binding) : Binding := { b with state := .up }

theorem turned_self {id : Nat} {b : Binding} (h : b.id = id) (state : BindingState) :
    b.turned id state = { b with state } := if_pos h

theorem turned_other {id : Nat} {b : Binding} (h : b.id ≠ id) (state : BindingState) :
    b.turned id state = b := if_neg h

theorem isDown_iff {b : Binding} : b.isDown ↔ b.state = .down := by simp [isDown]

end Binding

namespace Table

variable {t t' : Table} {id : Nat} {b : Binding}

/-- No two bindings have an id in common. -/
def Distinct (t : Table) : Prop := (t.bindings.map (·.id)).Nodup

/-- The bindings are the same but for their states. -/
def Alike (t t' : Table) : Prop := t'.bindings.map Binding.atRest = t.bindings.map Binding.atRest

/-! ### Ids -/

theorem get?_mem (h : t.get? id = some b) : b ∈ t.bindings ∧ b.id = id := by
  unfold get? at h
  exact ⟨List.mem_of_find?_eq_some h, by simpa using List.find?_some h⟩

theorem get?_eq_none_iff : t.get? id = none ↔ ∀ b ∈ t.bindings, b.id ≠ id := by
  simp [get?]

theorem Distinct.eq_of_id (h : t.Distinct) {c : Binding} (hb : b ∈ t.bindings) (hc : c ∈ t.bindings)
    (hid : b.id = c.id) : b = c :=
  List.inj_on_of_nodup_map h hb hc hid

theorem Distinct.get?_eq_some (h : t.Distinct) (hb : b ∈ t.bindings) :
    t.get? b.id = some b := by
  cases hget : t.get? b.id with
  | none => exact absurd rfl (get?_eq_none_iff.mp hget b hb)
  | some c =>
    obtain ⟨hc, hid⟩ := get?_mem hget
    rw [h.eq_of_id hc hb hid]

/-! ### States -/

theorem setState_bindings (h : t.Distinct) (state : BindingState) :
    (t.setState id state).bindings = t.bindings.map (Binding.turned id state) := by
  obtain ⟨bs⟩ := t
  simp only [Distinct, setState] at h ⊢
  induction bs with
  | nil => rfl
  | cons b bs ih =>
    rw [List.map_cons, List.nodup_cons] at h
    simp only [setState.set, List.map_cons]
    by_cases hid : b.id = id
    · have hrest : bs.map (Binding.turned id state) = bs := by
        conv_rhs => rw [← List.map_id bs]
        refine List.map_congr_left fun c hc => Binding.turned_other ?_ state
        rintro rfl
        exact h.1 (hid ▸ List.mem_map_of_mem hc)
      rw [if_pos hid, hrest, Binding.turned_self hid]
    · rw [if_neg hid, ih h.2, Binding.turned_other hid]

theorem alike_setState (t : Table) (id : Nat) (state : BindingState) : t.Alike (t.setState id state) := by
  obtain ⟨bs⟩ := t
  simp only [Alike, setState]
  induction bs with
  | nil => rfl
  | cons b bs ih =>
    simp only [setState.set]
    split
    · rfl
    · rw [List.map_cons, List.map_cons, ih]

theorem mem_setState {state : BindingState} (h : b ∈ (t.setState id state).bindings) :
    b ∈ t.bindings ∨ b.state = state := by
  obtain ⟨bs⟩ := t
  simp only [setState] at h ⊢
  induction bs with
  | nil => cases h
  | cons c bs ih =>
    simp only [setState.set] at h
    split at h
    · rcases List.mem_cons.mp h with rfl | h
      · exact .inr rfl
      · exact .inl (List.mem_cons_of_mem c h)
    · rcases List.mem_cons.mp h with rfl | h
      · exact .inl List.mem_cons_self
      · exact (ih h).imp_left (List.mem_cons_of_mem c)

namespace Alike

theorem refl (t : Table) : t.Alike t := rfl

theorem trans {t'' : Table} (h : t.Alike t') (h' : t'.Alike t'') : t.Alike t'' := Eq.trans h' h

theorem symm (h : t.Alike t') : t'.Alike t := Eq.symm h

/-- Every binding is there in some state. -/
theorem exists_mem (h : t.Alike t') (hb : b ∈ t'.bindings) : ∃ c ∈ t.bindings, c.atRest = b.atRest := by
  have hmem : b.atRest ∈ t.bindings.map Binding.atRest := by
    rw [← h]
    exact List.mem_map_of_mem hb
  obtain ⟨c, hc, heq⟩ := List.mem_map.mp hmem
  exact ⟨c, hc, heq⟩

theorem map_eq {α : Type} (h : t.Alike t') (f : Binding → α) (hf : ∀ b : Binding, f b.atRest = f b) :
    t'.bindings.map f = t.bindings.map f := by
  have hcomp : f ∘ Binding.atRest = f := funext hf
  rw [← hcomp, ← List.map_map, h, List.map_map]

theorem distinct (h : t.Alike t') (ht : t.Distinct) : t'.Distinct := by
  unfold Distinct
  rw [h.map_eq (·.id) fun _ => rfl]
  exact ht

/-- What does not depend on states holds of all bindings alike. -/
theorem forall_mem {P : Binding → Prop} (h : t.Alike t') (hP : ∀ b c : Binding, c.atRest = b.atRest → P c → P b)
    (ht : ∀ b ∈ t.bindings, P b) : ∀ b ∈ t'.bindings, P b := by
  intro b hb
  obtain ⟨c, hc, heq⟩ := h.exists_mem hb
  exact hP b c heq (ht c hc)

end Alike

/-! ### Coming and going -/

theorem mem_insert : ∀ c, c ∈ (t.insert b).bindings ↔ c = b ∨ c ∈ t.bindings :=
  fun _ => Ordered.mem_insertSorted

theorem distinct_insert (h : t.Distinct) (hb : ∀ c ∈ t.bindings, c.id ≠ b.id) : (t.insert b).Distinct := by
  have hperm : ((t.insert b).bindings.map (·.id)).Perm (b.id :: t.bindings.map (·.id)) :=
    (Ordered.perm_insertSorted Binding.precedes b t.bindings).map _
  unfold Distinct
  rw [hperm.nodup_iff, List.nodup_cons]
  refine ⟨?_, h⟩
  rintro hmem
  obtain ⟨c, hc, hid⟩ := List.mem_map.mp hmem
  exact hb c hc hid

theorem remove_bindings (h : t.Distinct) : (t.remove id).bindings = t.bindings.filter (·.id ≠ id) := by
  obtain ⟨bs⟩ := t
  simp only [Distinct, remove] at h ⊢
  induction bs with
  | nil => rfl
  | cons b bs ih =>
    rw [List.map_cons, List.nodup_cons] at h
    by_cases hid : b.id = id
    · have hrest : bs.filter (·.id ≠ id) = bs := by
        rw [List.filter_eq_self]
        intro c hc
        simp only [ne_eq, decide_not, Bool.not_eq_true', decide_eq_false_iff_not]
        rintro rfl
        exact h.1 (hid ▸ List.mem_map_of_mem hc)
      rw [List.eraseP_cons_of_pos (by simpa using hid), List.filter_cons_of_neg (by simpa using hid), hrest]
    · rw [List.eraseP_cons_of_neg (by simpa using hid), List.filter_cons_of_pos (by simpa using hid), ih h.2]

theorem distinct_remove (h : t.Distinct) : (t.remove id).Distinct := by
  unfold Distinct
  rw [remove_bindings h]
  exact h.sublist (List.filter_sublist.map _)

end Table

end KeyConsole.Dispatch
