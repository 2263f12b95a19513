import KeyConsole.Proofs.Keyboard.Packing
import Mathlib.Data.List.Nodup
import Mathlib.Data.List.Perm.Subperm

/-!
# Proofs.Keyboard.Specificity: packed order and keys

Packed combinations compare by their modifiers, the greatest first, and then by their base keys.  So a combination
that covers another one, and has its keys in the same roles, is the greater one: no modifier of the other one is its
base key.  Without that neither the number of keys nor the number of modifiers decides.
-/

namespace KeyConsole.Keyboard

/-! ### Descending keys -/

namespace Key

variable {k : Key} {ks ks' : List Key}

/-- Keys stand in one descending order only. -/
theorem eq_of_descending (hperm : ks.Perm ks') (hks : ks.Pairwise fun a b => b.code ≤ a.code)
    (hks' : ks'.Pairwise fun a b => b.code ≤ a.code) : ks = ks' :=
  hperm.eq_of_pairwise (fun _ _ _ _ hab hba => code_injective (Nat.le_antisymm hba hab)) hks hks'

theorem code_getD_le (h : ∀ j ∈ ks, j.code ≤ k.code) (i : Nat) : (ks.getD i .unknown).code ≤ k.code := by
  rw [List.getD_eq_getElem?_getD]
  cases hi : ks[i]? with
  | none => exact Nat.zero_le _
  | some j => exact h j (List.mem_of_getElem? hi)

/-- A part of a descending list is at most as great as the list, place by place. -/
theorem code_getD_le_of_sublist (h : ks.Sublist ks') (hks' : ks'.Pairwise fun a b => b.code ≤ a.code) {i j : Nat}
    (hij : j ≤ i) : (ks.getD i .unknown).code ≤ (ks'.getD j .unknown).code := by
  -- with places that differ, since a key that is left out brings the part forward by one
  induction h generalizing i j with
  | slnil => exact Nat.le_refl _
  | @cons ks ks' a h ih =>
    obtain ⟨ha, hrest⟩ := List.pairwise_cons.mp hks'
    cases j with
    | zero => exact code_getD_le (fun b hb => ha b (h.subset hb)) i
    | succ j => exact ih hrest (Nat.le_of_succ_le hij)
  | @cons_cons ks ks' a h ih =>
    obtain ⟨ha, hrest⟩ := List.pairwise_cons.mp hks'
    cases i with
    | zero =>
      obtain rfl := Nat.le_zero.mp hij
      exact Nat.le_refl _
    | succ i =>
      cases j with
      | zero => exact code_getD_le (fun b hb => ha b (h.subset hb)) i
      | succ j => exact ih hrest (Nat.le_of_succ_le_succ hij)

end Key

namespace Combo

variable {c c' m : Combo} {k : Key}

/-- The modifiers in use, the greatest first. -/
def used (c : Combo) : List Key := c.modifiers.filter (· ≠ .unknown)

theorem covers_iff : m.covers c ↔ ∀ k ∈ c.keys, k ∈ m.keys := by
  simp [covers, contains]

theorem mem_keys_of_covers (h : m.covers c) (hk : k ∈ c.keys) : k ∈ m.keys := covers_iff.mp h k hk

/-! ### Slots -/

theorem slot_eq_iff {i j : Nat} : c.slot i = c'.slot j ↔ (c.slot i).code = (c'.slot j).code :=
  ⟨congrArg Key.code, Key.code_injective⟩

theorem slot_eq_unknown_iff {i : Nat} : c.slot i = .unknown ↔ (c.slot i).code = 0 :=
  ⟨congrArg Key.code, fun h => Key.code_injective (h.trans rfl)⟩

theorem modifiers_eq_iff : c.modifiers = c'.modifiers ↔ (c.slot 3).code = (c'.slot 3).code ∧
    (c.slot 2).code = (c'.slot 2).code ∧ (c.slot 1).code = (c'.slot 1).code := by
  simp [modifiers, slot_eq_iff]

theorem modifiers_lt_iff : c.modifiers < c'.modifiers ↔ (c.slot 3).code < (c'.slot 3).code ∨
    (c.slot 3).code = (c'.slot 3).code ∧ ((c.slot 2).code < (c'.slot 2).code ∨
      (c.slot 2).code = (c'.slot 2).code ∧ (c.slot 1).code < (c'.slot 1).code) := by
  simp [modifiers, List.cons_lt_cons_iff, Key.lt_iff, slot_eq_iff]

namespace Packed

/-- A packed word has the codes of its keys as bytes. -/
theorem toNat_packed (h : c.Packed) : c.packed.toNat =
    (c.slot 0).code + 256 * ((c.slot 1).code + 256 * ((c.slot 2).code + 256 * (c.slot 3).code)) := by
  have hpack := h.pack?_slots
  have hmods := (slot_of_pack? hpack).2
  rw [pack?_known (base_ne_of_pack? hpack), ← hmods] at hpack
  have hpacked := congrArg Combo.packed (Option.some.inj hpack)
  simp only at hpacked
  rw [← hpacked, toNat_ofBytes (Key.code_lt_byte _) (Key.code_lt_byte _) (Key.code_lt_byte _) (Key.code_lt_byte _)]
  simp only [Nat.pow_eq]
  omega

theorem slots_descending (h : c.Packed) :
    (c.slot 1).code ≤ (c.slot 2).code ∧ (c.slot 2).code ≤ (c.slot 3).code := by
  have hsorted := descending_sorted (c.slot 3) (c.slot 2) (c.slot 1)
  rwa [← (slot_of_pack? h.pack?_slots).2] at hsorted

theorem unknown_below (h : c.Packed) : (c.slot 3 = .unknown → c.slot 2 = .unknown) ∧
    (c.slot 2 = .unknown → c.slot 1 = .unknown) := by
  obtain ⟨h12, h23⟩ := h.slots_descending
  simp only [slot_eq_unknown_iff]
  omega

/-- Unused places stand last. -/
theorem modifiers_eq (h : c.Packed) : c.modifiers = c.used ++ List.replicate (3 - c.used.length) .unknown := by
  obtain ⟨h23, h12⟩ := h.unknown_below
  unfold used modifiers
  by_cases h3 : c.slot 3 = .unknown
  · simp [h3, h23 h3, h12 (h23 h3), List.replicate]
  · by_cases h2 : c.slot 2 = .unknown
    · simp [h3, h2, h12 h2, List.replicate]
    · by_cases h1 : c.slot 1 = .unknown <;> simp [h3, h2, h1]

theorem used_descending (h : c.Packed) : c.used.Pairwise fun a b => b.code ≤ a.code := by
  obtain ⟨h12, h23⟩ := h.slots_descending
  refine List.Pairwise.filter _ ?_
  simp only [modifiers, List.pairwise_cons, List.mem_cons, List.not_mem_nil, or_false, forall_eq_or_imp, forall_eq,
    IsEmpty.forall_iff, implies_true, List.Pairwise.nil, and_true]
  omega

/-- The keys are the base key and the modifiers in use. -/
theorem keys_eq (h : c.Packed) : c.keys = c.base :: c.used.reverse := by
  have hbase : c.slot 0 ≠ .unknown := h.base_ne
  rw [keys, used, modifiers, ← List.filter_reverse, List.filter_cons_of_pos (by simpa using hbase)]
  rfl

theorem mem_keys (h : c.Packed) : k ∈ c.keys ↔ k = c.base ∨ k ∈ c.used := by
  rw [h.keys_eq, List.mem_cons, List.mem_reverse]

theorem nodup_keys (h : c.Packed) : c.keys.Nodup ↔ c.base ∉ c.used ∧ c.used.Nodup := by
  rw [h.keys_eq, List.nodup_cons, List.mem_reverse, List.nodup_reverse]

end Packed

/-! ### Order -/

/-- Of two packed combinations the one is smaller that has the smaller modifier where these first differ, or the
smaller base key if they do not. -/
theorem packed_lt_iff (h : c.Packed) (h' : c'.Packed) :
    c.packed < c'.packed ↔ c.modifiers < c'.modifiers ∨ c.modifiers = c'.modifiers ∧ c.base < c'.base := by
  have hbyte : ∀ (c : Combo) i, (c.slot i).code < 256 := fun c i => (c.slot i).code_lt_byte
  have hdigit : ∀ {x x' : Nat} (y y' : Nat), x < 256 → x' < 256 →
      (x + 256 * y < x' + 256 * y' ↔ y < y' ∨ y = y' ∧ x < x') := by omega
  rw [UInt32.lt_iff_toNat_lt, h.toNat_packed, h'.toNat_packed, hdigit _ _ (hbyte c 0) (hbyte c' 0),
    hdigit _ _ (hbyte c 1) (hbyte c' 1), hdigit _ _ (hbyte c 2) (hbyte c' 2), modifiers_lt_iff, modifiers_eq_iff,
    base, base, Key.lt_iff]
  have h1 := hbyte c 1
  have h1' := hbyte c' 1
  have h2 := hbyte c 2
  have h2' := hbyte c' 2
  omega

theorem eq_of_modifiers_of_base (h : c.Packed) (h' : c'.Packed) (hmods : c.modifiers = c'.modifiers)
    (hbase : c.base = c'.base) : c = c' := by
  have hpacked : c.packed.toNat = c'.packed.toNat := by
    obtain ⟨h3, h2, h1⟩ := modifiers_eq_iff.mp hmods
    rw [h.toNat_packed, h'.toNat_packed, h3, h2, h1, slot_eq_iff.mp hbase]
  exact congrArg Combo.mk (UInt32.toNat_inj.mp hpacked)

/-- Modifiers that are among others, each as often, are a part of them. -/
theorem sublist_used (h : c.Packed) (h' : c'.Packed) (hsub : c.used.Subperm c'.used) : c.used.Sublist c'.used := by
  obtain ⟨ks, hperm, hsublist⟩ := hsub
  have hks : ks = c.used := Key.eq_of_descending hperm (h'.used_descending.sublist hsublist) h.used_descending
  exact hks ▸ hsublist

/-- Modifiers are at most as great, place by place, as any others that they are among. -/
theorem slots_le (h : c.Packed) (h' : c'.Packed) (hsub : c.used.Subperm c'.used) :
    (c.slot 3).code ≤ (c'.slot 3).code ∧ (c.slot 2).code ≤ (c'.slot 2).code ∧
      (c.slot 1).code ≤ (c'.slot 1).code := by
  have hplace : ∀ {c : Combo}, c.Packed → ∀ i, c.modifiers.getD i .unknown = c.used.getD i .unknown := by
    intro c h i
    conv_lhs => rw [h.modifiers_eq]
    simp only [List.getD_eq_getElem?_getD, List.getElem?_append, List.getElem?_replicate]
    grind
  have hle : ∀ i, (c.modifiers.getD i .unknown).code ≤ (c'.modifiers.getD i .unknown).code := by
    intro i
    rw [hplace h, hplace h']
    exact Key.code_getD_le_of_sublist (sublist_used h h' hsub) h'.used_descending (Nat.le_refl i)
  exact ⟨hle 0, hle 1, hle 2⟩

/-- Modifiers are smaller than any others that they are among. -/
theorem modifiers_lt_of_subperm (h : c.Packed) (h' : c'.Packed) (hsub : c.used.Subperm c'.used)
    (hne : c.modifiers ≠ c'.modifiers) : c.modifiers < c'.modifiers := by
  obtain ⟨h3, h2, h1⟩ := slots_le h h' hsub
  rw [Ne, modifiers_eq_iff] at hne
  rw [modifiers_lt_iff]
  omega

/-- Modifiers that differ from each other are among others if each of them is. -/
theorem modifiers_lt_of_subset (h : c.Packed) (h' : c'.Packed) (hnodup : c.used.Nodup) (hsub : c.used ⊆ c'.used)
    (hne : c.modifiers ≠ c'.modifiers) : c.modifiers < c'.modifiers :=
  modifiers_lt_of_subperm h h' (List.subperm_of_subset hnodup hsub) hne

/-- A combination is greater than one that it covers, if this names no key twice and the base key of the greater
one is no modifier of it. -/
theorem packed_lt_of_covers (hm : m.Packed) (h : c.Packed) (hcovers : m.covers c) (hne : c ≠ m)
    (hnodup : c.keys.Nodup) (hbase : m.base ∉ c.modifiers) : c.packed < m.packed := by
  obtain ⟨hfresh, hused⟩ := h.nodup_keys.mp hnodup
  have hsub : c.used ⊆ m.used := by
    intro k hk
    refine (hm.mem_keys.mp (mem_keys_of_covers hcovers (h.mem_keys.mpr (.inr hk)))).resolve_left ?_
    rintro rfl
    exact hbase (List.mem_of_mem_filter hk)
  refine (packed_lt_iff h hm).mpr (.inl (modifiers_lt_of_subset h hm hused hsub fun hmods => ?_))
  -- with the same modifiers the base key of the smaller one has no place left
  rcases hm.mem_keys.mp (mem_keys_of_covers hcovers h.base_mem_keys) with heq | hmem
  · exact hne (eq_of_modifiers_of_base h hm hmods heq)
  · rw [used, ← hmods] at hmem
    exact hfresh hmem

end Combo

end KeyConsole.Keyboard
