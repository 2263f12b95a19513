import KeyConsole.Proofs.Decimal.IntText
import KeyConsole.Yaml.Meaning
import Mathlib.Logic.Basic

/-!
# Proofs.Yaml.NumberText: integers read back from their decimal text
-/

namespace KeyConsole.Yaml

open Decimal (digitsOf natText intText isDigit_of_mem_digitsOf digitsOf_lt digitsOf_ge)

theorem digitBelow?_digitChar {n : Nat} (h : n < 10) : digitBelow? 10 n.digitChar = some n := by
  have hall : ∀ m < 10, digitBelow? 10 m.digitChar = some m := by decide
  exact hall n h

theorem digits?_digitsOf (n : Nat) : digits? 10 (digitsOf n) = some n := by
  have hfold : (digitsOf n).foldlM (fun n c => (digitBelow? 10 c).map (n * 10 + ·)) 0 = some n := by
    induction n using Nat.strongRecOn with
    | ind n ih =>
      by_cases hn : n < 10
      · rw [digitsOf_lt hn]
        simp [digitBelow?_digitChar hn]
      · rw [digitsOf_ge (by omega), List.foldlM_append, ih (n / 10) (by omega)]
        have hlast := digitBelow?_digitChar (n := n % 10) (by omega)
        have hsum : n / 10 * 10 + n % 10 = n := by omega
        simp [hlast, hsum]
  unfold digits?
  rw [if_neg, hfold]
  rw [List.isEmpty_iff]
  exact Nat.toDigits_ne_nil

/-- Only zero begins with a zero. -/
theorem head?_digitsOf {n : Nat} (h : 0 < n) : (digitsOf n).head? ≠ some '0' := by
  induction n using Nat.strongRecOn with
  | ind n ih =>
    by_cases hn : n < 10
    · have hall : ∀ m < 10, 0 < m → (digitsOf m).head? ≠ some '0' := by decide
      exact hall n hn h
    · rw [digitsOf_ge (by omega), List.head?_append]
      intro hhead
      rcases Option.or_eq_some_iff.mp hhead with hhead | ⟨hnone, -⟩
      · exact ih (n / 10) (by omega) (by omega) hhead
      · exact Nat.toDigits_ne_nil (List.head?_eq_none_iff.mp hnone)

theorem based?_digitsOf (n : Nat) : based? (digitsOf n) = none := by
  have hdigit := fun c => isDigit_of_mem_digitsOf (n := n) (c := c)
  generalize digitsOf n = cs at hdigit
  unfold based?
  split
  · exact absurd (hdigit 'x' (by simp)) (by decide)
  · exact absurd (hdigit 'o' (by simp)) (by decide)
  · exact absurd (hdigit 'b' (by simp)) (by decide)
  · rfl

theorem not_isPaddedDigits_digitsOf (n : Nat) : isPaddedDigits (digitsOf n) = false := by
  have hdigit := fun c => isDigit_of_mem_digitsOf (n := n) (c := c)
  have hshort : ¬((digitsOf n).length > 1 ∧ (digitsOf n).head? = some '0') := by
    rintro ⟨hlength, hhead⟩
    rcases Nat.eq_zero_or_pos n with rfl | hn
    · exact absurd hlength (by decide)
    · exact head?_digitsOf hn hhead
  generalize digitsOf n = cs at hdigit hshort
  unfold isPaddedDigits
  simp only [Bool.and_eq_false_iff, decide_eq_false_iff_not]
  left
  split
  · exact absurd (hdigit '-' (by simp)) (by decide)
  · exact absurd (hdigit '+' (by simp)) (by decide)
  · exact not_and_or.mp hshort

theorem unsigned?_digitsOf (n : Nat) : unsigned? (digitsOf n) = some n := by
  rw [unsigned?, based?_digitsOf, not_isPaddedDigits_digitsOf, digits?_digitsOf]
  rfl

theorem natural?_natText (n : Nat) : natural? (natText n) = some n := by
  have hdigit := fun c => isDigit_of_mem_digitsOf (n := n) (c := c)
  have hread := unsigned?_digitsOf n
  unfold natural? natText
  rw [String.toList_ofList]
  generalize digitsOf n = cs at hdigit hread ⊢
  split
  · exact absurd (hdigit '+' (by simp)) (by decide)
  · exact hread

theorem integer?_intText (n : Int) : integer? (intText n) = some n := by
  unfold integer? intText
  by_cases hn : n < 0
  · have hplus : natural? (String.ofList ('-' :: digitsOf n.natAbs)) = none := by
      have hread : unsigned? ('-' :: digitsOf n.natAbs) = none := by
        have hsign : digits? 10 ('-' :: digitsOf n.natAbs) = none := by
          unfold digits?
          rw [List.foldlM_cons]
          rfl
        rw [unsigned?, hsign, ite_self]
        rfl
      unfold natural?
      rw [String.toList_ofList]
      exact hread
    have hminus : negative? (String.ofList ('-' :: digitsOf n.natAbs)) = some n := by
      unfold negative?
      rw [String.toList_ofList]
      simp only [unsigned?_digitsOf]
      show some (-(n.natAbs : Int)) = some n
      have hneg : -(n.natAbs : Int) = n := by omega
      rw [hneg]
    rw [if_pos hn, hplus, hminus]
    rfl
  · rw [if_neg hn, natural?_natText]
    have habs : Int.ofNat n.natAbs = n := by
      simp only [Int.ofNat_eq_natCast]
      omega
    rw [Option.map_some, habs]
    rfl

end KeyConsole.Yaml
