import KeyConsole.Ordered.NameMap
import Mathlib.Data.String.Basic

/-!
# Proofs.Ordered.NameMaps: one entry for a name

The names in a map ascend, whatever has been put into it.  So an entry is the one that is found under its name.
-/

namespace KeyConsole.Ordered.NameMap

variable {α : Type} {entries : List (String × α)} {m : NameMap α} {name : String} {value : α} {e : String × α}

/-- The entries ascend by their names. -/
def Ascending (m : NameMap α) : Prop := m.entries.Pairwise fun a b => a.1 < b.1

theorem ascending_empty : (empty : NameMap α).Ascending := .nil

theorem mem_putEntry (h : e ∈ putEntry name value entries) : e = (name, value) ∨ e ∈ entries := by
  induction entries with
  | nil => exact .inl (List.mem_singleton.mp h)
  | cons first rest ih =>
    unfold putEntry at h
    split at h
    · exact (List.mem_cons.mp h).imp_right (List.mem_cons_of_mem _)
    · split at h
      · exact List.mem_cons.mp h
      · rcases List.mem_cons.mp h with rfl | h
        · exact .inr List.mem_cons_self
        · exact (ih h).imp_right (List.mem_cons_of_mem _)

theorem pairwise_putEntry (h : entries.Pairwise fun a b => a.1 < b.1) :
    (putEntry name value entries).Pairwise fun a b => a.1 < b.1 := by
  induction entries with
  | nil => exact List.pairwise_singleton _ _
  | cons first rest ih =>
    obtain ⟨hfirst, hrest⟩ := List.pairwise_cons.mp h
    unfold putEntry
    split
    · rename_i hname
      exact List.pairwise_cons.mpr ⟨fun e he => hname ▸ hfirst e he, hrest⟩
    · rename_i hname
      split
      · rename_i hless
        refine List.pairwise_cons.mpr ⟨fun e he => ?_, h⟩
        rcases List.mem_cons.mp he with rfl | he
        · exact hless
        · exact hless.trans (hfirst e he)
      · rename_i hnot
        refine List.pairwise_cons.mpr ⟨fun e he => ?_, ih hrest⟩
        rcases mem_putEntry he with rfl | he
        · exact lt_of_le_of_ne (not_lt.mp hnot) hname
        · exact hfirst e he

theorem Ascending.put (h : m.Ascending) (name : String) (value : α) : (m.put name value).Ascending :=
  pairwise_putEntry h

theorem Ascending.get?_eq_some_iff (h : m.Ascending) : m.get? name = some value ↔ (name, value) ∈ m.entries := by
  constructor
  · intro hfound
    obtain ⟨⟨n, v⟩, he, rfl⟩ := Option.map_eq_some_iff.mp hfound
    obtain rfl : n = name := of_decide_eq_true (List.find?_some he :)
    exact List.mem_of_find?_eq_some he
  · intro hmem
    obtain ⟨before, behind, hentries⟩ := List.append_of_mem hmem
    -- the names in front are smaller, so the search does not stop at them
    have hbefore : ∀ e ∈ before, ¬decide (e.1 = name) = true := by
      intro e he hname
      unfold Ascending at h
      rw [hentries] at h
      have hless := (List.pairwise_append.mp h).2.2 e he (name, value) List.mem_cons_self
      exact hless.ne (of_decide_eq_true hname)
    unfold get?
    rw [hentries, List.find?_append, List.find?_eq_none.mpr hbefore]
    simp

theorem Ascending.mem_values_iff (h : m.Ascending) : value ∈ m.values ↔ ∃ name, m.get? name = some value := by
  simp only [h.get?_eq_some_iff, values, List.mem_map, Prod.exists, exists_eq_right]

end KeyConsole.Ordered.NameMap
