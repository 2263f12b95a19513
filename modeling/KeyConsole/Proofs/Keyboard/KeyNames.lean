import KeyConsole.Keyboard.KeyName

/-!
# Proofs.Keyboard.KeyNames: keys are found by their own names

Every key but the unknown one is found by its own name, and no name finds the unknown one.
-/

namespace KeyConsole.Keyboard.Key

theorem mem_all {k : Key} (h : k ≠ .unknown) : k ∈ all := by
  cases k <;> first | exact absurd rfl h | decide

/-- A name finds the key that has it, by whichever of the three tables. -/
theorem ofName?_name {k : Key} (h : k ≠ .unknown) : ofName? k.name = some k := by
  have hall : ∀ k ∈ all, ofName? k.name = some k := by decide +kernel
  exact hall k (mem_all h)

theorem ofDigit?_ne_unknown {s : String} {k : Key} (h : ofDigit? s = some k) : k ≠ .unknown := by
  have hdigits : ∀ n < 10, ofCode (num0.code + n) ≠ unknown := by decide
  unfold ofDigit? at h
  split at h
  · rename_i c _
    obtain ⟨hdigit, hk⟩ := Option.ite_none_right_eq_some.mp h
    rw [← Option.some.inj hk]
    refine hdigits _ ?_
    have hnine : c.toNat ≤ '0'.toNat + 9 := by
      simp only [Char.isDigit, Bool.and_eq_true, decide_eq_true_eq] at hdigit
      exact UInt32.le_iff_toNat_le.mp hdigit.2
    omega
  · cases h

/-- No name finds the unknown key, by none of the three tables. -/
theorem ofName?_ne_unknown {name : String} {k : Key} (h : ofName? name = some k) : k ≠ .unknown := by
  have hother : ∀ p ∈ otherNames, p.2 ≠ unknown := by decide
  have hall : unknown ∉ all := by decide
  unfold ofName? at h
  simp only [Option.orElse_eq_orElse, Option.orElse_eq_or, Option.or_eq_some_iff] at h
  obtain (h | ⟨-, h⟩) | ⟨-, h⟩ := h
  · obtain ⟨front, behind, heq, -⟩ := List.lookup_eq_some_iff.mp h
    rw [heq] at hother
    exact hother _ (List.mem_append_right front List.mem_cons_self)
  · exact ofDigit?_ne_unknown h
  · rintro rfl
    exact hall (List.mem_of_find?_eq_some h)

end KeyConsole.Keyboard.Key
