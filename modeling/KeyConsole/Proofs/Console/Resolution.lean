import KeyConsole.Console.Builtin
import KeyConsole.Proofs.Console.Admission
import KeyConsole.Proofs.Ordered.NameMaps

/-!
# Proofs.Console.Resolution: commands found by name, signatures found by type
-/

namespace KeyConsole.Console

variable {c : Command} {s : Signature} {subcommand : Option String} {piped : Option ValueType} {n : Nat}

namespace Signature

/-- A signature takes a piped type just if it asks for a type to which this one is assignable. -/
theorem accepts_some_iff {p : ValueType} :
    s.accepts (some p) ↔ ∃ want, s.piped = some want ∧ p.assignable want := by
  unfold accepts fit?
  cases s.piped with
  | none => simp
  | some want =>
    dsimp only
    by_cases hsame : p = want
    · subst hsame
      simp [ValueType.assignable_refl]
    · rw [if_neg hsame]
      by_cases hassignable : p.assignable want <;> simp [hassignable]

theorem fit?_of_eq (h : s.piped = piped) : s.fit? piped = some 1000 := by
  subst h
  unfold fit?
  cases s.piped <;> simp

theorem accepts_of_eq (h : s.piped = piped) : s.accepts piped := by
  unfold accepts
  rw [fit?_of_eq h]
  rfl

theorem fit?_of_ne (h : s.piped ≠ piped) : s.fit? piped = if s.accepts piped then some 100 else none := by
  unfold accepts fit?
  cases hs : s.piped with
  | none => cases piped <;> simp_all
  | some want =>
    cases piped with
    | none => simp
    | some got =>
      have hother : got ≠ want := fun heq => h (hs.trans (congrArg some heq.symm))
      by_cases hassignable : got.assignable want <;> simp [hother, hassignable]

/-- The signature is under the subcommand and has that many type arguments. -/
def suits (subcommand : Option String) (n : Nat) (s : Signature) : Bool :=
  s.subcommand = subcommand ∧ s.typeCount = n

theorem suits_iff : s.suits subcommand n ↔ s.subcommand = subcommand ∧ s.typeCount = n := by
  simp [suits]

end Signature

namespace Command

/-! ### The choice among the signatures -/

variable {best : Option (Nat × Nat)} {t : Signature × Nat}

theorem better_of_eq (hsuits : t.1.suits subcommand n) (heq : t.1.piped = piped) (hbest : ∀ b ∈ best, b.1 = 100) :
    better subcommand piped n best t = some (1000, t.2) := by
  unfold better
  rw [if_pos (Signature.suits_iff.mp hsuits), Signature.fit?_of_eq heq]
  cases best with
  | none => rfl
  | some b =>
    obtain ⟨fit, i⟩ := b
    obtain rfl : fit = 100 := hbest _ rfl
    rfl

theorem better_of_accepts (hsuits : t.1.suits subcommand n) (hne : t.1.piped ≠ piped) (haccepts : t.1.accepts piped)
    (hbest : ∀ b ∈ best, b.1 = 100) : better subcommand piped n best t = best.or (some (100, t.2)) := by
  unfold better
  rw [if_pos (Signature.suits_iff.mp hsuits), Signature.fit?_of_ne hne, if_pos haccepts]
  cases best with
  | none => rfl
  | some b =>
    obtain ⟨fit, i⟩ := b
    obtain rfl : fit = 100 := hbest _ rfl
    rfl

theorem better_of_refused (h : (t.1.suits subcommand n && t.1.accepts piped) = false) :
    better subcommand piped n best t = best := by
  unfold better
  split
  · rename_i hsuits
    rw [Signature.suits_iff.mpr hsuits, Bool.true_and] at h
    have hne : t.1.piped ≠ piped := fun heq => by
      rw [Signature.accepts_of_eq heq] at h
      cases h
    rw [Signature.fit?_of_ne hne, h]
    rfl
  · rfl

/-- Nothing is better than a signature for the very type. -/
theorem foldl_better_exact (l : List (Signature × Nat)) (i : Nat) :
    l.foldl (better subcommand piped n) (some (1000, i)) = some (1000, i) := by
  induction l with
  | nil => rfl
  | cons t l ih =>
    have hstays : better subcommand piped n (some (1000, i)) t = some (1000, i) := by
      unfold better
      by_cases heq : t.1.piped = piped
      · simp [Signature.fit?_of_eq heq]
      · rw [Signature.fit?_of_ne heq]
        by_cases haccepts : t.1.accepts piped <;> simp [haccepts]
    rw [List.foldl_cons, hstays, ih]

/-- As long as none was for the very type, the first that is will be chosen, else what was chosen before, else the
first that takes the type. -/
theorem foldl_better (l : List (Signature × Nat)) (hbest : ∀ b ∈ best, b.1 = 100) :
    l.foldl (better subcommand piped n) best =
      ((l.find? fun t => t.1.suits subcommand n && t.1.piped = piped).map fun t => (1000, t.2)).or
        (best.or ((l.find? fun t => t.1.suits subcommand n && t.1.accepts piped).map fun t => (100, t.2))) := by
  induction l generalizing best with
  | nil => simp
  | cons t l ih =>
    rw [List.foldl_cons]
    cases hfits : t.1.suits subcommand n && t.1.accepts piped with
    | false =>
      have hother : (t.1.suits subcommand n && decide (t.1.piped = piped)) = false := by
        by_contra h
        simp only [Bool.not_eq_false, Bool.and_eq_true, decide_eq_true_eq] at h
        rw [h.1, Signature.accepts_of_eq h.2] at hfits
        cases hfits
      rw [better_of_refused hfits, ih hbest, List.find?_cons, List.find?_cons, hother, hfits]
    | true =>
      obtain ⟨hsuits, haccepts⟩ := (Bool.and_eq_true _ _).mp hfits
      by_cases heq : t.1.piped = piped
      · rw [better_of_eq hsuits heq hbest, foldl_better_exact, List.find?_cons_of_pos (by simp [hsuits, heq])]
        rfl
      · have hbest' : ∀ b ∈ best.or (some (100, t.2)), b.1 = 100 := by
          cases best with
          | none => simp
          | some b => exact hbest
        rw [better_of_accepts hsuits heq haccepts hbest, ih hbest', List.find?_cons_of_neg (by simp [heq]),
          List.find?_cons_of_pos (by exact hfits)]
        cases best <;> rfl

theorem find?_zipIdx (l : List Signature) (p : Signature → Bool) :
    (l.zipIdx.find? fun t => p t.1).bind (fun t => l[t.2]?) = l.find? p := by
  have hfst : l.find? p = (l.zipIdx.find? fun t => p t.1).map Prod.fst := by
    conv_lhs => rw [← List.zipIdx_map_fst 0 l]
    exact List.find?_map
  rw [hfst]
  cases hfound : l.zipIdx.find? fun t => p t.1 with
  | none => rfl
  | some t => exact List.mem_zipIdx_iff_getElem?.mp (List.mem_of_find?_eq_some hfound)

/-- A command resolves to its first signature for the very type, else to the first that takes the type. -/
theorem resolve?_eq : c.resolve? subcommand piped n =
    (c.signatures.find? fun s => s.suits subcommand n && s.piped = piped).or
      (c.signatures.find? fun s => s.suits subcommand n && s.accepts piped) := by
  have hindex : c.resolveIndex? subcommand piped n
      = (c.signatures.zipIdx.foldl (better subcommand piped n) none).map (·.2) := rfl
  unfold resolve?
  rw [hindex, foldl_better _ (fun b h => by cases h), ← find?_zipIdx, ← find?_zipIdx]
  cases hexact : c.signatures.zipIdx.find? fun t => t.1.suits subcommand n && t.1.piped = piped with
  | none => simp [Option.bind_map, Function.comp_def]
  | some t =>
    have hplace : c.signatures[t.2]? = some t.1 := List.mem_zipIdx_iff_getElem?.mp (List.mem_of_find?_eq_some hexact)
    simp [hplace]

/-- The signature that a command resolves to is one of its own, is under the subcommand, has that many type
arguments and takes the piped type. -/
theorem resolve?_spec (h : c.resolve? subcommand piped n = some s) :
    s ∈ c.signatures ∧ s.subcommand = subcommand ∧ s.typeCount = n ∧ s.accepts piped := by
  rw [resolve?_eq, Option.or_eq_some_iff] at h
  rcases h with h | ⟨-, h⟩
  · have hfound := List.find?_some h
    obtain ⟨hsuits, heq⟩ := (Bool.and_eq_true _ _).mp hfound
    obtain ⟨hsubcommand, hcount⟩ := Signature.suits_iff.mp hsuits
    exact ⟨List.mem_of_find?_eq_some h, hsubcommand, hcount, Signature.accepts_of_eq (of_decide_eq_true heq)⟩
  · have hfound := List.find?_some h
    obtain ⟨hsuits, haccepts⟩ := (Bool.and_eq_true _ _).mp hfound
    obtain ⟨hsubcommand, hcount⟩ := Signature.suits_iff.mp hsuits
    exact ⟨List.mem_of_find?_eq_some h, hsubcommand, hcount, haccepts⟩

/-- A command resolves just if one of its signatures is under the subcommand, has that many type arguments and takes
the piped type. -/
theorem isSome_resolve?_iff : (c.resolve? subcommand piped n).isSome ↔
    ∃ s ∈ c.signatures, s.subcommand = subcommand ∧ s.typeCount = n ∧ s.accepts piped := by
  constructor
  · intro h
    obtain ⟨s, hs⟩ := Option.isSome_iff_exists.mp h
    exact ⟨s, resolve?_spec hs⟩
  · rintro ⟨s, hs, hsubcommand, hcount, haccepts⟩
    rw [resolve?_eq, Option.isSome_or, Bool.or_eq_true, List.find?_isSome, List.find?_isSome]
    exact Or.inr ⟨s, hs, by rw [Signature.suits_iff.mpr ⟨hsubcommand, hcount⟩, haccepts]; rfl⟩

/-- A command with one signature resolves to this one, if it fits at all. -/
theorem resolve?_of_singleton (h : c.signatures = [s]) (hsubcommand : s.subcommand = subcommand)
    (hcount : s.typeCount = n) (haccepts : s.accepts piped) : c.resolve? subcommand piped n = some s := by
  have hsome : (c.resolve? subcommand piped n).isSome :=
    isSome_resolve?_iff.mpr ⟨s, h ▸ List.mem_singleton_self s, hsubcommand, hcount, haccepts⟩
  obtain ⟨s', hs'⟩ := Option.isSome_iff_exists.mp hsome
  have hmem := (resolve?_spec hs').1
  rw [h] at hmem
  rw [hs', List.mem_singleton.mp hmem]

end Command

namespace Directory

variable {d : Directory} {name : String}

theorem get?_register (d : Directory) (c : Command) (name : String) :
    (d.register c).get? name = if c.name = name then some c else d.get? name :=
  Ordered.NameMap.get?_put d.commands c.name name c

/-- A command that is found has been registered under its own name, or was there before. -/
theorem get?_registerAll {cs : List Command} (h : (d.registerAll cs).get? name = some c) :
    (c ∈ cs ∧ c.name = name) ∨ d.get? name = some c := by
  induction cs generalizing d with
  | nil => exact Or.inr h
  | cons b cs ih =>
    rcases ih h with ⟨hmem, hname⟩ | h
    · exact Or.inl ⟨List.mem_cons_of_mem _ hmem, hname⟩
    · rw [get?_register] at h
      split at h
      · rename_i hname
        cases h
        exact Or.inl ⟨List.mem_cons_self, hname⟩
      · exact Or.inr h

/-- Some commands registered in turn, in a console where newlines may end commands. -/
abbrev registered (cs : List Command) (newlineEnds : Bool) : Directory :=
  { commands := (registerAll {} cs).commands, newlineEnds }

theorem ascending_registerAll {cs : List Command} (h : d.commands.Ascending) :
    (d.registerAll cs).commands.Ascending := by
  induction cs generalizing d with
  | nil => exact h
  | cons b cs ih => exact ih (h.put b.name b)

/-- What is found in a directory is one of its commands, under its own name. -/
theorem get?_registered {cs : List Command} {newlineEnds : Bool} (h : (registered cs newlineEnds).get? name = some c) :
    c ∈ (registered cs newlineEnds).commands.values ∧ c.name = name := by
  refine ⟨(ascending_registerAll Ordered.NameMap.ascending_empty).mem_values_iff.mpr ⟨name, h⟩, ?_⟩
  rcases get?_registerAll h with ⟨-, hname⟩ | hnone
  · exact hname
  · cases hnone

/-- The commands of a directory are found under their own names. -/
theorem get?_name {cs : List Command} {newlineEnds : Bool} (h : c ∈ (registered cs newlineEnds).commands.values) :
    (registered cs newlineEnds).get? c.name = some c := by
  obtain ⟨name, hname⟩ := (ascending_registerAll Ordered.NameMap.ascending_empty).mem_values_iff.mp h
  obtain ⟨-, rfl⟩ := get?_registered hname
  exact hname

/-- The built-in commands, in a console where newlines may end commands. -/
abbrev builtinWith (newlineEnds : Bool) : Directory := { commands := builtin.commands, newlineEnds }

/-- The commands found in the directory of the built-in commands are built in. -/
theorem get?_builtin {newlineEnds : Bool} (h : (builtinWith newlineEnds).get? name = some c) :
    c ∈ Builtin.commands ∧ c.name = name := by
  have hfound : builtin.get? name = some c := h
  rcases get?_registerAll hfound with hmem | hnone
  · exact hmem
  · cases hnone

end Directory

end KeyConsole.Console
