import KeyConsole.Proofs.Console.Resolution
import Mathlib.Order.Defs.Unbundled

/-!
# Proofs.Console.Overloads: the signature that a piped type picks

Types are ordered by what is assignable to what, and a signature takes, with a type, all the types below it.  Among the
signatures of a command the first that asks for the very type that is piped is picked, whatever stands before it, and
without one the first that takes the type.
-/

namespace KeyConsole.Console

variable {s : Signature} {a b : ValueType}

instance : IsPartialOrder ValueType (fun a b => a.assignable b) where
  refl := ValueType.assignable_refl
  trans _ _ _ := ValueType.assignable_trans
  antisymm _ _ := ValueType.assignable_antisymm

/-- With a type a signature takes all the types that are assignable to it. -/
theorem Signature.accepts_of_assignable (h : s.accepts (some b)) (hab : a.assignable b) : s.accepts (some a) := by
  obtain ⟨want, hwant, hb⟩ := accepts_some_iff.mp h
  exact accepts_some_iff.mpr ⟨want, hwant, ValueType.assignable_trans hab hb⟩

/-- Assignability is an order, and the choice among overloads follows it.  A signature takes all the types that are
assignable to one that it takes.  A command resolves to nothing just if no signature under the subcommand and with that
many type arguments takes the piped type, and otherwise to the first of these that asks for this very type, or, if there
is none, to the first that takes it. -/
theorem overloads_follow_assignability :
    IsPartialOrder ValueType (fun a b => a.assignable b) ∧
    (∀ (s : Signature) (a b : ValueType), s.accepts (some b) → a.assignable b → s.accepts (some a)) ∧
    ∀ (c : Command) (subcommand : Option String) (piped : Option ValueType) (types : List ValueType),
      (c.resolve? subcommand piped types.length = none ↔
        ∀ s ∈ c.signatures, s.suits subcommand types.length → ¬s.accepts piped) ∧
      c.resolve? subcommand piped types.length =
        (c.signatures.find? fun s => s.suits subcommand types.length && s.piped = piped).or
          (c.signatures.find? fun s => s.suits subcommand types.length && s.accepts piped) := by
  refine ⟨inferInstance, fun s a b => Signature.accepts_of_assignable, fun c subcommand piped types =>
    ⟨?_, Command.resolve?_eq⟩⟩
  rw [← Option.not_isSome_iff_eq_none, Command.isSome_resolve?_iff]
  constructor
  · intro hnone s hs hsuits haccepts
    obtain ⟨hsubcommand, hcount⟩ := Signature.suits_iff.mp hsuits
    exact hnone ⟨s, hs, hsubcommand, hcount, haccepts⟩
  · rintro hrefused ⟨s, hs, hsubcommand, hcount, haccepts⟩
    exact hrefused s hs (Signature.suits_iff.mpr ⟨hsubcommand, hcount⟩) haccepts

/-- The signature for the very type is picked, though one in front of it takes anything. -/
example : (Command.resolve? { name := "show", signatures := [{ piped := some .any, run := fun c => return c.piped },
    { piped := some .int, run := fun c => return c.piped }] } none (some .int) 0).bind (·.piped) = some .int := rfl

end KeyConsole.Console
