import KeyConsole.Keyboard.Combo
import Mathlib.Tactic.SplitIfs

/-!
# Proofs.Keyboard.Packing: what stands in a packed combination

The four bytes of a packed combination give back its keys: the base key in the lowest, and the modifiers in
descending order above it.  Packing these again gives the same combination.
-/

namespace KeyConsole.Keyboard

namespace Key

theorem code_lt_byte (k : Key) : k.code < Nat.pow 2 8 := Nat.lt_trans k.code_lt (by decide)

theorem lt_iff {a b : Key} : a < b ↔ a.code < b.code := Iff.rfl

end Key

namespace Combo

variable {c : Combo} {base mod1 mod2 mod3 : Key}

/-- The combination comes from packing some keys. -/
def Packed (c : Combo) : Prop := ∃ base mod1 mod2 mod3, pack? base mod1 mod2 mod3 = some c

/-! ### Descending order -/

theorem descending_sorted (a b c : Key) :
    (descending a b c).2.2.code ≤ (descending a b c).2.1.code ∧
      (descending a b c).2.1.code ≤ (descending a b c).1.code := by
  unfold descending exchange
  simp only [Key.lt_iff]
  split_ifs <;> simp_all <;> omega

theorem descending_eq_self {a b c : Key} (hbc : c.code ≤ b.code) (hab : b.code ≤ a.code) :
    descending a b c = (a, b, c) := by
  have hab' : ¬a < b := by rw [Key.lt_iff]; omega
  have hbc' : ¬b < c := by rw [Key.lt_iff]; omega
  simp [descending, exchange, hab', hbc']

/-! ### Bytes -/

theorem toNat_ofBytes {b0 b1 b2 b3 : Nat} (h0 : b0 < Nat.pow 2 8) (h1 : b1 < Nat.pow 2 8) (h2 : b2 < Nat.pow 2 8)
    (h3 : b3 < Nat.pow 2 8) :
    (ofBytes b0 b1 b2 b3).toNat = b0 + Nat.pow 2 8 * b1 + Nat.pow 2 16 * b2 + Nat.pow 2 24 * b3 := by
  unfold ofBytes
  rw [UInt32.toNat_ofNat']
  simp only [Nat.pow_eq] at *
  omega

theorem slot_mk_ofBytes (k0 k1 k2 k3 : Key) :
    let c : Combo := ⟨ofBytes k0.code k1.code k2.code k3.code⟩
    c.slot 0 = k0 ∧ c.slot 1 = k1 ∧ c.slot 2 = k2 ∧ c.slot 3 = k3 := by
  have h0 := k0.code_lt_byte
  have h1 := k1.code_lt_byte
  have h2 := k2.code_lt_byte
  have h3 := k3.code_lt_byte
  have slot_eq : ∀ (i : Nat) (k : Key),
      (k0.code + Nat.pow 2 8 * k1.code + Nat.pow 2 16 * k2.code + Nat.pow 2 24 * k3.code) / Nat.pow 2 (8 * i)
          % Nat.pow 2 8 = k.code →
        slot ⟨ofBytes k0.code k1.code k2.code k3.code⟩ i = k := by
    intro i k h
    rw [slot, toNat_ofBytes h0 h1 h2 h3, h, Key.ofCode_code]
  simp only [Nat.pow_eq] at h0 h1 h2 h3 slot_eq
  exact ⟨slot_eq 0 k0 (by omega), slot_eq 1 k1 (by omega), slot_eq 2 k2 (by omega), slot_eq 3 k3 (by omega)⟩

/-! ### Packing -/

theorem pack?_known (hbase : base ≠ .unknown) :
    pack? base mod1 mod2 mod3 = some ⟨ofBytes base.code (descending mod1 mod2 mod3).2.2.code
      (descending mod1 mod2 mod3).2.1.code (descending mod1 mod2 mod3).1.code⟩ := by
  rw [pack?, if_neg hbase]

theorem base_ne_of_pack? (h : pack? base mod1 mod2 mod3 = some c) : base ≠ .unknown := by
  rintro rfl
  rw [pack?, if_pos rfl] at h
  cases h

/-- What stands where in a packed combination. -/
theorem slot_of_pack? (h : pack? base mod1 mod2 mod3 = some c) :
    c.slot 0 = base ∧ (c.slot 3, c.slot 2, c.slot 1) = descending mod1 mod2 mod3 := by
  rw [pack?_known (base_ne_of_pack? h)] at h
  generalize descending mod1 mod2 mod3 = mods at h ⊢
  obtain rfl := Option.some.inj h
  obtain ⟨h0, h1, h2, h3⟩ := slot_mk_ofBytes base mods.2.2 mods.2.1 mods.1
  exact ⟨h0, by rw [h1, h2, h3]⟩

theorem Packed.base_ne (h : c.Packed) : c.base ≠ .unknown := by
  obtain ⟨base, mod1, mod2, mod3, h⟩ := h
  rw [Combo.base, (slot_of_pack? h).1]
  exact base_ne_of_pack? h

/-- A packed combination has a key. -/
theorem Packed.base_mem_keys (h : c.Packed) : c.base ∈ c.keys := by
  simp [keys, base, show c.slot 0 ≠ .unknown from h.base_ne]

/-- A combination is what its own keys pack to. -/
theorem Packed.pack?_slots (h : c.Packed) : pack? (c.slot 0) (c.slot 3) (c.slot 2) (c.slot 1) = some c := by
  obtain ⟨base, mod1, mod2, mod3, h⟩ := h
  have hbase := base_ne_of_pack? h
  obtain ⟨hslot, hmods⟩ := slot_of_pack? h
  have hsorted := descending_sorted mod1 mod2 mod3
  have hself : descending (c.slot 3) (c.slot 2) (c.slot 1) = descending mod1 mod2 mod3 := by
    rw [← hmods] at hsorted ⊢
    exact descending_eq_self hsorted.1 hsorted.2
  rw [pack?_known hbase] at h
  rw [hslot, pack?_known hbase, hself]
  exact h

end Combo

end KeyConsole.Keyboard
