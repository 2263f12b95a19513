import KeyConsole.Proofs.Console.Flow

/-!
# Proofs.Console.Holdings: the types that variables may hold

The types of the values that each variable may hold are carried along a pipeline.  A command that stores a value
leaves its variable with one type.  A block for a command may run any number of times, so the types in front of it
and those that it leaves behind may all be held where it begins and where it ends.  The table of the variables that
reading keeps goes through the text once; whatever it says of a variable is one of the types that may be held.
-/

namespace KeyConsole.Console

open Ordered (NameMap)

/-- The types of the values that each variable may hold. -/
structure Holdings where
  types : String → List ValueType

namespace Holdings

/-- Every variable holds the type that it is known to have. -/
def of (known : NameMap ValueType) : Holdings := ⟨fun name => (known.get? name).toList⟩

/-- The variable holds the type. -/
def put (name : String) (t : ValueType) (M : Holdings) : Holdings :=
  ⟨fun other => if name = other then [t] else M.types other⟩

/-- What may be held where two ways meet. -/
def join (M N : Holdings) : Holdings := ⟨fun name => M.types name ++ N.types name⟩

instance : LE Holdings := ⟨fun M N => ∀ name, M.types name ⊆ N.types name⟩

/-- Along a pipeline, where blocks for a command run any number of times. -/
def flow : Flow Holdings where
  assign := put
  enter f M := M.join (f M)
  leave f M := M.join (f M)

variable {M N K : Holdings}

theorem le_refl (M : Holdings) : M ≤ M := fun _ => List.Subset.refl _

theorem le_trans (h : M ≤ N) (h' : N ≤ K) : M ≤ K := fun name => List.Subset.trans (h name) (h' name)

theorem le_join_left (M N : Holdings) : M ≤ M.join N := fun _ => List.subset_append_left _ _

theorem le_join_right (M N : Holdings) : N ≤ M.join N := fun _ => List.subset_append_right _ _

theorem join_le (h : M ≤ K) (h' : N ≤ K) : M.join N ≤ K := fun name => List.append_subset.mpr ⟨h name, h' name⟩

theorem put_le {name : String} {t : ValueType} (ht : t ∈ N.types name)
    (h : ∀ other, name ≠ other → M.types other ⊆ N.types other) :
    M.put name t ≤ N := by
  intro other u hu
  unfold put at hu
  dsimp only at hu
  split at hu
  · rename_i heq
    subst heq
    rw [List.mem_singleton.mp hu]
    exact ht
  · rename_i hne
    exact h other hne hu

theorem mem_put_self (name : String) (t : ValueType) (M : Holdings) : t ∈ (M.put name t).types name := by
  unfold put
  dsimp only
  rw [if_pos rfl]
  exact List.mem_singleton_self t

theorem put_of_ne {name other : String} {t : ValueType} (h : name ≠ other) : (M.put name t).types other = M.types other :=
  if_neg h

/-! ### Blocks that run again -/

/-- Whatever more may be held in front of a pipeline, no more than that may be held behind it in addition. -/
theorem flow_follows_join (N : Holdings) : flow.Follows flow fun M' M => M' ≤ M.join N where
  assign name t M' M h := by
    refine put_le (List.mem_append_left _ (mem_put_self name t M)) fun other hne => ?_
    have hput : (flow.assign name t M).types other = M.types other := put_of_ne hne
    show M'.types other ⊆ (flow.assign name t M).types other ++ N.types other
    rw [hput]
    exact h other
  enter f g hfg M' M h := around h (hfg M' M h)
  leave f g hfg M' M h := around h (hfg M' M h)
where
  around {M' M L' L : Holdings} (h : M' ≤ M.join N) (hl : L' ≤ L.join N) : M'.join L' ≤ (M.join L).join N :=
    join_le
      (le_trans h (join_le (le_trans (le_join_left M L) (le_join_left _ _)) (le_join_right _ _)))
      (le_trans hl (join_le (le_trans (le_join_right M L) (le_join_left _ _)) (le_join_right _ _)))

/-- A block that is run once more, wherever one run more or less may have ended, ends where one may have ended. -/
theorem flow_again (p : Pipeline) (M : Holdings) :
    p.flow flow (M.join (p.flow flow M)) ≤ M.join (p.flow flow M) := by
  have hmore := p.flow_follows (flow_follows_join (p.flow flow M)) (le_refl (M.join (p.flow flow M)))
  exact le_trans hmore (join_le (le_join_right _ _) (le_join_right _ _))

end Holdings

/-! ### The table that reading keeps -/

/-- The variables known while the text is read, where every block is gone through once. -/
def Flow.table : Flow (NameMap ValueType) where
  assign name t known := known.put name t
  enter _ known := known
  leave f known := f known

/-- The type that reading knows of a variable may be held. -/
theorem Flow.table_follows : Flow.table.Follows Holdings.flow fun known M => Holdings.of known ≤ M where
  assign name t known M h := by
    intro other u hu
    have hput : (known.put name t).get? other = some u := Option.mem_toList.mp hu
    rw [NameMap.get?_put] at hput
    by_cases hname : name = other
    · rw [if_pos hname] at hput
      cases hput
      exact hname ▸ Holdings.mem_put_self name _ M
    · rw [if_neg hname] at hput
      have hold := h other (Option.mem_toList.mpr hput)
      show u ∈ (M.put name t).types other
      rwa [Holdings.put_of_ne hname]
  enter f g _ known M h := Holdings.le_trans h (Holdings.le_join_left M _)
  leave f g hfg known M h := Holdings.le_trans (hfg known M h) (Holdings.le_join_right M _)

/-! ### Reads that are settled -/

/-- The variable that an argument names. -/
def Argument.variable? : Argument → Option String
  | .variable name => some name
  | _ => none

/-- The variable that the first argument of the step names. -/
def Step.variable? (s : Step) : Option String := s.arguments.head?.bind Argument.variable?

/-- A step that reads a variable as it is does so where the variable may only hold values of the type that the step
was read with, or of one type. -/
def Step.Settled (M : Holdings) (s : Step) : Prop :=
  s.name = "var" → ∀ name ∈ s.variable?,
    s.returns = .any ∨ (∀ t ∈ M.types name, t.assignable s.returns) ∨ ∀ t ∈ M.types name, ∀ u ∈ M.types name, t = u

instance (M : Holdings) (s : Step) : Decidable (s.Settled M) := inferInstanceAs (Decidable (s.name = "var" → _))

end KeyConsole.Console
