import KeyConsole.Proofs.Console.Admission
import KeyConsole.Proofs.Console.CommandHeads

/-!
# Proofs.Console.SuggestedConversions: the conversion that a refused command is told to use

Where no signature takes what is piped, the fault may suggest a conversion.  It is looked for among the types that the
signatures ask for, not by letting the command resolve again.  Since each conversion returns one type, which is not
void, the two come to the same: behind the suggested conversion the command resolves, and without a suggestion no
conversion helps.
-/

namespace KeyConsole.Console

open Reading

variable {c : Command} {s : Signature} {d : Directory} {sub : Option String} {p t : ValueType} {k : String}

/-! ### Signatures by the types they ask for -/

namespace Command

theorem mem_acceptedTypes {a : ValueType} :
    a ∈ c.acceptedTypes sub ↔ ∃ s ∈ c.signatures, s.subcommand = sub ∧ s.piped.getD .void = a := by
  rw [acceptedTypes, Ordered.mem_withoutRepeats, (Ordered.perm_sorted _ _).mem_iff]
  simp [under, and_assoc]

/-- A regular command resolves for a piped type other than void just if this is assignable to one that it accepts. -/
theorem Regular.isSome_resolve?_iff (h : c.Regular) (ht : t ≠ .void) :
    (c.resolve? sub (some t) (c.typeCount sub)).isSome ↔ ∃ a ∈ c.acceptedTypes sub, t.assignable a := by
  rw [Command.isSome_resolve?_iff]
  constructor
  · rintro ⟨s, hs, hsub, -, haccepts⟩
    obtain ⟨want, hwant, hassignable⟩ := Signature.accepts_some_iff.mp haccepts
    exact ⟨want, mem_acceptedTypes.mpr ⟨s, hs, hsub, by rw [hwant]; rfl⟩, hassignable⟩
  · rintro ⟨a, ha, hassignable⟩
    obtain ⟨s, hs, rfl, rfl⟩ := mem_acceptedTypes.mp ha
    refine ⟨s, hs, rfl, (h.typeCount s hs).symm, Signature.accepts_some_iff.mpr ?_⟩
    cases hpiped : s.piped with
    | none =>
      rw [hpiped] at hassignable
      exact absurd (ValueType.assignable_void.mp hassignable) ht
    | some want =>
      rw [hpiped] at hassignable
      exact ⟨want, rfl, hassignable⟩

/-! ### Conversions -/

/-- No signature has a subcommand or type arguments, and all of them return this type, which is not void. -/
structure ConvertsTo (c : Command) (t : ValueType) : Prop where
  subcommand : ∀ s ∈ c.signatures, s.subcommand = none
  typeCount : ∀ s ∈ c.signatures, s.typeCount = 0
  returns : ∀ s ∈ c.signatures, ∀ facts, s.returns.type facts = t
  notVoid : t ≠ .void

end Command

theorem Builtin.convertsTo_commands (hc : c ∈ Builtin.commands) (hconversion : c.conversion = true) :
    ∃ t, c.ConvertsTo t := by
  have hfilter : Builtin.commands.filter (·.conversion) = Builtin.conversions := rfl
  have hmem : c ∈ Builtin.conversions := hfilter ▸ List.mem_filter.mpr ⟨hc, hconversion⟩
  simp only [Builtin.conversions, List.mem_cons, List.not_mem_nil, or_false] at hmem
  rcases hmem with rfl | rfl | rfl
  · exact ⟨.string, by decide, by decide, by simp [Returns.type], by decide⟩
  · exact ⟨.float, by decide, by decide, by simp [Returns.type, Builtin.onInt], by decide⟩
  · exact ⟨.int, by decide, by decide, by simp [Returns.type, Builtin.onFloat], by decide⟩

/-! ### Suggestions -/

section

variable {cs : List Command} {newlineEnds : Bool}
  (hconvert : ∀ c ∈ (Directory.registered cs newlineEnds).commands.values, c.conversion = true → ∃ t, c.ConvertsTo t)
  (hc : c.Regular)

include hconvert hc

/-- The suggested conversion takes the piped type, and behind it the command resolves. -/
theorem Directory.resolves_of_conversion?
    (h : (Directory.registered cs newlineEnds).conversion? p (c.acceptedTypes sub) = some k) :
    ∃ conversion s, (Directory.registered cs newlineEnds).get? k = some conversion ∧ conversion.conversion = true ∧
      conversion.resolve? none (some p) 0 = some s ∧
      (c.resolve? sub (some (s.returns.type { piped := some p })) (c.typeCount sub)).isSome := by
  obtain ⟨conversion, hfind, rfl⟩ := Option.map_eq_some_iff.mp h
  have hmem := List.mem_of_find?_eq_some hfind
  have hfound := List.find?_some hfind
  simp only [Bool.and_eq_true, decide_eq_true_eq, List.any_eq_true] at hfound
  obtain ⟨hconversion, s, hs, ⟨haccepts, hcount⟩, a, ha, hassignable⟩ := hfound
  obtain ⟨t, ht⟩ := hconvert conversion hmem hconversion
  obtain ⟨chosen, hchosen⟩ := Option.isSome_iff_exists.mp
    (Command.isSome_resolve?_iff.mpr ⟨s, hs, ht.subcommand s hs, hcount, haccepts⟩)
  refine ⟨conversion, chosen, get?_name hmem, hconversion, hchosen, ?_⟩
  -- the signature that was found need not be the one chosen, but both return the same type
  rw [ht.returns s hs] at hassignable
  rw [ht.returns chosen (Command.resolve?_spec hchosen).1]
  exact (hc.isSome_resolve?_iff ht.notVoid).mpr ⟨a, ha, hassignable⟩

/-- Without a suggestion the command resolves behind no conversion that takes the piped type. -/
theorem Directory.not_resolves_of_conversion?
    (h : (Directory.registered cs newlineEnds).conversion? p (c.acceptedTypes sub) = none) {conversion : Command}
    (hget : (Directory.registered cs newlineEnds).get? k = some conversion) (hconversion : conversion.conversion = true)
    (hs : s ∈ conversion.signatures) (haccepts : s.accepts (some p)) :
    c.resolve? sub (some (s.returns.type { piped := some p })) (c.typeCount sub) = none := by
  obtain ⟨hmem, -⟩ := get?_registered hget
  obtain ⟨t, ht⟩ := hconvert conversion hmem hconversion
  rw [← Option.not_isSome_iff_eq_none, ht.returns s hs, hc.isSome_resolve?_iff ht.notVoid]
  rintro ⟨a, ha, hassignable⟩
  have hnone := List.find?_eq_none.mp (Option.map_eq_none_iff.mp h) conversion hmem
  simp only [Bool.and_eq_true, decide_eq_true_eq, List.any_eq_true] at hnone
  exact hnone ⟨hconversion, s, hs, ⟨haccepts, ht.typeCount s hs⟩, a, ha, (ht.returns s hs _).symm ▸ hassignable⟩

end

/-- Among the built-in commands, where one does not resolve for a piped type, with a subcommand if it has some: reading
it there fails, and the fault has the hint of the directory.  If the hint is a conversion, this one resolves for the
piped type without type arguments, and the command resolves for the type that it returns.  If there is no hint, no
conversion that takes the piped type returns a type that the command resolves for. -/
theorem suggested_conversions_help {newlineEnds : Bool} {name : String} {hint : Option String}
    (hd : d = .builtinWith newlineEnds) (hcommand : d.get? name = some c)
    (hsub : ∃ s ∈ c.signatures, s.subcommand = sub)
    (hnone : c.resolve? sub (some p) (c.typeCount sub) = none) (hhint : hint = d.conversion? p (c.acceptedTypes sub)) :
    (∀ (words : List String) (types : List ValueType), words.map ValueType.ofName? = types.map some →
      types.length = c.typeCount sub →
      ∀ (e : Cursor) closers known more, e.BeginsCommand closers known name sub words more → ∀ nested start,
        Refuses e (command d nested (some p) start)
          (.noImplementation (Command.fullName name sub) (some p) (c.acceptedTypes sub) hint)) ∧
    (∀ k, hint = some k → ∃ conversion s t, d.get? k = some conversion ∧ conversion.conversion = true ∧
      conversion.resolve? none (some p) 0 = some s ∧ s.returns.type { piped := some p } = t ∧
        (c.resolve? sub (some t) (c.typeCount sub)).isSome) ∧
    (hint = none → ∀ k conversion s, d.get? k = some conversion → conversion.conversion = true →
      s ∈ conversion.signatures → s.accepts (some p) →
        c.resolve? sub (some (s.returns.type { piped := some p })) (c.typeCount sub) = none) := by
  subst hd hhint
  obtain ⟨rfl, hregular⟩ := Directory.regular_builtinWith newlineEnds _ _ hcommand
  have hconvert : ∀ c ∈ (Directory.builtinWith newlineEnds).commands.values, c.conversion = true →
      ∃ t, c.ConvertsTo t := fun c hc =>
    Builtin.convertsTo_commands (Directory.get?_builtin (Directory.get?_name hc)).1
  refine ⟨fun words types hwords hcount e closers known more he nested start => ?_, fun k hk => ?_,
    fun hhint k conversion s hget hconversion hs haccepts => ?_⟩
  · obtain ⟨s, hs, rfl⟩ := hsub
    rw [← hcount] at hnone
    exact (he.refuses_noImplementation (hregular.isCallable hs) hcommand (hregular.takes hs) hwords hcount hnone).first
  · obtain ⟨conversion, s, hget, hconversion, hresolve, hsome⟩ :=
      Directory.resolves_of_conversion? hconvert hregular hk
    exact ⟨conversion, s, _, hget, hconversion, hresolve, rfl, hsome⟩
  · exact Directory.not_resolves_of_conversion? hconvert hregular hhint hget hconversion hs haccepts

/-- The built-in sum. -/
abbrev plus : Command := Builtin.arithmetic "+" "Adds two numbers" Builtin.add? (· + ·)

theorem suggested_conversions_help_plus :
    (∀ nested start, Refuses (Cursor.ofSource "+ 1") (command (.builtinWith false) nested (some .string) start)
      (.noImplementation "+" (some .string) [.int, .float] (some "tofloat"))) ∧
    ∃ conversion s t, (Directory.builtinWith false).get? "tofloat" = some conversion ∧
      conversion.resolve? none (some .string) 0 = some s ∧ s.returns.type { piped := some .string } = t ∧
        (plus.resolve? none (some t) (plus.typeCount none)).isSome := by
  have hcommand : (Directory.builtinWith false).get? "+" = some plus := rfl
  have hcallable : IsCallable "+" none := ⟨⟨by decide, nofun⟩, by decide, by decide⟩
  have haccepted : plus.acceptedTypes none = [.int, .float] := by decide
  have hhint : (Directory.builtinWith false).conversion? .string (plus.acceptedTypes none) = some "tofloat" := by
    decide +kernel
  have hsub : ∃ s ∈ plus.signatures, s.subcommand = none := ⟨_, List.mem_cons_self, rfl⟩
  have hnone : plus.resolve? none (some .string) (plus.typeCount none) = none := rfl
  obtain ⟨hrefused, hsuggested, -⟩ := suggested_conversions_help rfl hcommand hsub hnone hhint.symm
  rw [haccepted] at hrefused
  refine ⟨hrefused [] [] rfl rfl _ _ _ _ (Cursor.beginsCommand_ofSource rfl hcallable.toIsFullName (by decide)), ?_⟩
  obtain ⟨conversion, s, t, hget, -, hresolve, ht, hsome⟩ := hsuggested "tofloat" rfl
  exact ⟨conversion, s, t, hget, hresolve, ht, hsome⟩

end KeyConsole.Console
