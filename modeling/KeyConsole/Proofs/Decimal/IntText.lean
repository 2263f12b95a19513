import KeyConsole.Decimal.IntText
import KeyConsole.Decimal.Reading

/-!
# Proofs.Decimal.IntText: integers read back from their decimal text
-/

namespace KeyConsole.Decimal

/-! ### Digits -/

theorem isDigit_of_mem_digitsOf {n : Nat} {c : Char} (h : c ∈ digitsOf n) : c.isDigit :=
  Nat.isDigit_of_mem_toDigits (by decide) (by decide) h

theorem digitsOf_ne_nil (n : Nat) : digitsOf n ≠ [] := Nat.toDigits_ne_nil

theorem digitsOf_lt {n : Nat} (h : n < 10) : digitsOf n = [n.digitChar] :=
  Nat.toDigits_of_lt_base h

theorem digitsOf_ge {n : Nat} (h : 10 ≤ n) : digitsOf n = digitsOf (n / 10) ++ [(n % 10).digitChar] :=
  Nat.toDigits_of_base_le (by decide) h

theorem digit?_digitChar {n : Nat} (h : n < 10) : digit? n.digitChar = some n := by
  have hall : ∀ m < 10, digit? m.digitChar = some m := by decide
  exact hall n h

/-! ### Integers of 64 bits -/

theorem fit?_toInt (n : Int64) : fit? n.toInt = some n := by
  have hlow : -Int.pow 2 63 ≤ n.toInt := n.le_toInt
  have hhigh : n.toInt < Int.pow 2 63 := n.toInt_lt
  rw [fit?, if_pos ⟨hlow, hhigh⟩, Int64.ofInt_toInt]

/-- A number lies in the range of 64 bits. -/
def Fits (n : Int) : Prop := Int64.minValue.toInt ≤ n ∧ n ≤ Int64.maxValue.toInt

instance (n : Int) : Decidable (Fits n) := inferInstanceAs (Decidable (_ ∧ _))

theorem fits_toInt (n : Int64) : Fits n.toInt := ⟨n.minValue_le_toInt, n.toInt_le⟩

theorem fit?_eq_none {n : Int} : fit? n = none ↔ ¬Fits n := by
  have hlow : Int64.minValue.toInt = -Int.pow 2 63 := rfl
  have hhigh : Int64.maxValue.toInt = Int.pow 2 63 - 1 := rfl
  unfold fit? Fits
  rw [hlow, hhigh, Int.le_sub_one_iff, ite_eq_right_iff]
  simp

/-- What fits is kept as it is. -/
theorem toInt_of_fit? {n : Int} {z : Int64} (h : fit? n = some z) : z.toInt = n := by
  unfold fit? at h
  split at h
  · rename_i hfits
    cases h
    exact Int64.toInt_ofInt_of_le hfits.1 hfits.2
  · cases h

theorem readDigits_append (negative : Bool) (first second : List Char) (n : Int64) :
    readDigits negative (first ++ second) n = (readDigits negative first n).bind (readDigits negative second) := by
  induction first generalizing n with
  | nil => rfl
  | cons c first ih =>
    rw [List.cons_append, readDigits, readDigits]
    cases digit? c with
    | none => rfl
    | some d =>
      dsimp only
      cases fit? (if negative then n.toInt * 10 - d else n.toInt * 10 + d) with
      | none => rfl
      | some m => exact ih m

/-- One more digit. -/
theorem readDigits_digitChar {negative : Bool} {d : Nat} {m n : Int64} (hd : d < 10)
    (h : n.toInt = if negative then m.toInt * 10 - d else m.toInt * 10 + d) :
    readDigits negative [d.digitChar] m = .ok n := by
  rw [readDigits, digit?_digitChar hd]
  dsimp only
  rw [← h, fit?_toInt]
  rfl

/-- The digits of a number are read as this number, with the sign that was announced, if it fits. -/
theorem readDigits_digitsOf {negative : Bool} {k : Nat} {n : Int64}
    (h : n.toInt = if negative then -(k : Int) else k) : readDigits negative (digitsOf k) 0 = .ok n := by
  have hzero : (0 : Int64).toInt = 0 := rfl
  induction k using Nat.strongRecOn generalizing n with
  | ind k ih =>
    by_cases hk : k < 10
    · rw [digitsOf_lt hk]
      refine readDigits_digitChar hk ?_
      rw [h, hzero]
      cases negative <;> simp
    · -- the digits before the last make a smaller number, which fits all the more
      have hlow := n.le_toInt
      have hhigh := n.toInt_lt
      let front : Int := if negative then -((k / 10 : Nat) : Int) else ((k / 10 : Nat) : Int)
      have hbounds : -2 ^ 63 ≤ front ∧ front < 2 ^ 63 := by
        cases negative <;> simp only [front, Bool.false_eq_true, if_true, if_false] at h ⊢ <;> omega
      have hfront : (Int64.ofInt front).toInt = front := Int64.toInt_ofInt_of_le hbounds.1 hbounds.2
      rw [digitsOf_ge (by omega), readDigits_append, ih (k / 10) (by omega) hfront]
      refine readDigits_digitChar (by omega) ?_
      rw [h, hfront]
      cases negative <;> simp only [front, Bool.false_eq_true, if_true, if_false] <;> omega

/-- An integer is read back from its decimal text. -/
theorem readInt_intText (n : Int64) : readInt (intText n.toInt).toList = .ok n := by
  unfold intText
  split
  · rename_i hneg
    have hn : n.toInt = -((n.toInt.natAbs : Nat) : Int) := by omega
    rw [String.toList_ofList, readInt, if_neg (by simpa using digitsOf_ne_nil _)]
    exact readDigits_digitsOf hn
  · rename_i hneg
    have hn : n.toInt = ((n.toInt.natAbs : Nat) : Int) := by omega
    have hread : readDigits false (digitsOf n.toInt.natAbs) 0 = .ok n := readDigits_digitsOf hn
    have hdigit := fun c => isDigit_of_mem_digitsOf (n := n.toInt.natAbs) (c := c)
    have hne := digitsOf_ne_nil n.toInt.natAbs
    unfold natText
    rw [String.toList_ofList]
    generalize digitsOf n.toInt.natAbs = cs at hdigit hread hne ⊢
    unfold readInt
    split
    · exact absurd rfl hne
    · exact absurd (hdigit '+' (by simp)) (by decide)
    · exact absurd (hdigit '-' (by simp)) (by decide)
    · exact hread

theorem intText_ne_nil (n : Int) : (intText n).toList ≠ [] := by
  unfold intText natText
  split <;> rw [String.toList_ofList]
  · exact List.cons_ne_nil _ _
  · exact digitsOf_ne_nil _

theorem mem_intText {n : Int} {c : Char} (h : c ∈ (intText n).toList) : c.isDigit ∨ c = '-' := by
  unfold intText natText at h
  split at h <;> rw [String.toList_ofList] at h
  · rcases List.mem_cons.mp h with rfl | h
    · exact Or.inr rfl
    · exact Or.inl (isDigit_of_mem_digitsOf h)
  · exact Or.inl (isDigit_of_mem_digitsOf h)

end KeyConsole.Decimal
