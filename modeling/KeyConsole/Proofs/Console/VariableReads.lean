import KeyConsole.Proofs.Console.Declarations
import KeyConsole.Proofs.Console.WellTypedRuns

/-!
# Proofs.Console.VariableReads: what is read from variables

The command `var` answers with whatever its variable holds, and promises the type that the variable had where the
command stands in the text.  The blocks of `map` and `where` run any number of times, so the variable may hold a value
of another type then.  Where each variable that is read may only hold values of one type, or of the type promised, no
run goes wrong.
-/

namespace KeyConsole.Console

open Ordered (NameMap)
open ValueType (AdmitsPiped)

/-! ### The command that reads variables -/

namespace Builtin

/-- Only among the commands on variables is there one of the name `var`. -/
theorem mem_storage {c : Command} (h : c ∈ commands) (hname : c.name = "var") : c ∈ storage := by
  have hothers : ∀ c ∈ literals ++ numbers ++ lists ++ conversions ++ others, c.name ≠ "var" := by decide +kernel
  simp only [commands, List.mem_append] at h
  simp only [List.mem_append] at hothers
  rcases h with ((((h | h) | h) | h) | h) | h
  · exact absurd hname (hothers c (Or.inl (Or.inl (Or.inl (Or.inl h)))))
  · exact absurd hname (hothers c (Or.inl (Or.inl (Or.inl (Or.inr h)))))
  · exact absurd hname (hothers c (Or.inl (Or.inl (Or.inr h))))
  · exact h
  · exact absurd hname (hothers c (Or.inl (Or.inr h)))
  · exact absurd hname (hothers c (Or.inr h))

/-- The command `var` reads a variable and promises the type that was known for it. -/
theorem reads_var {c : Command} (h : c ∈ commands) (hname : c.name = "var") :
    ∀ s ∈ c.signatures, s.ReadsVariable ∧ s.returns = .computed typeOfFirstVariable := by
  have hstorage : ∀ c ∈ storage, c.name = "var" →
      ∀ s ∈ c.signatures, s.ReadsVariable ∧ s.returns = .computed typeOfFirstVariable := by
    unfold storage
    simp only [List.forall_mem_cons, List.not_mem_nil, false_implies, implies_true, and_true]
    refine ⟨fun h => absurd h (by decide), fun _ => ?_, fun h => absurd h (by decide)⟩
    exact ⟨"name", rfl, fun _ => rfl⟩
  exact hstorage c (mem_storage h hname) hname

end Builtin

/-! ### Reads that are settled can be trusted -/

/-- What is known of a variable that is read is what the step was read with. -/
theorem Step.Informed.returns_eq {newlineEnds : Bool} {known : NameMap ValueType} {s : Step} {target : String}
    (h : s.Informed (Directory.builtinWith newlineEnds) known) (hvar : s.name = "var")
    (htarget : target ∈ s.variable?) : s.returns = (known.get? target).getD .any := by
  obtain ⟨name, subcommand, inverted, piped, types, arguments, signature, returns, span⟩ := s
  obtain ⟨c, hc, hsignature, hreturns⟩ := h
  obtain ⟨hmem, hname⟩ := Directory.get?_builtin hc
  obtain ⟨⟨parameter, hparameters, -⟩, hcomputed⟩ :=
    Builtin.reads_var hmem (hname.trans hvar) signature hsignature
  obtain ⟨a, hfirst, ha⟩ := Option.bind_eq_some_iff.mp htarget
  obtain ⟨rest, rfl⟩ := List.head?_eq_some_iff.mp hfirst
  have htypes : (Reading.Arguments.kept piped (a :: rest) signature.parameters known).variableTypes
      = [known.get? target] := by
    cases a with
    | «variable» other =>
      cases ha
      rw [hparameters]
      exact Reading.Arguments.variableTypes_kept
    | _ => cases ha
  dsimp only at hreturns
  rw [hreturns, hcomputed]
  show Builtin.typeOfFirstVariable _ = _
  unfold Builtin.typeOfFirstVariable
  rw [htypes]
  rfl

/-- A step of built-in commands that was read where some variables are known, and is settled where these may be held,
can be trusted there. -/
theorem Step.trusted_of_settled {newlineEnds : Bool} {known : NameMap ValueType} {M : Holdings} {s : Step}
    (hknown : Holdings.of known ≤ M) (hinformed : s.Informed (Directory.builtinWith newlineEnds) known)
    (hsettled : s.Settled M) : s.Trusted (Directory.builtinWith newlineEnds) M := by
  intro c hc
  obtain ⟨hmem, hname⟩ := Directory.get?_builtin hc
  by_cases hvar : s.name = "var"
  · have hreads := Builtin.reads_var hmem (hname.trans hvar)
    refine Or.inr ⟨fun signature hs => (hreads signature hs).1, fun target htarget => ?_⟩
    rcases hsettled hvar target htarget with hany | hall | hsame
    · exact Or.inl hany
    · exact Or.inr hall
    · rw [hinformed.returns_eq hvar htarget]
      cases ht : known.get? target with
      | none => exact Or.inl rfl
      | some t =>
        have hheld : t ∈ M.types target := hknown target (Option.mem_toList.mpr ht)
        refine Or.inr fun u hu => ?_
        rw [hsame u hu t hheld]
        exact ValueType.assignable_refl t
  · exact Or.inl (Builtin.sound_commands c hmem fun h => hvar (hname ▸ h))

/-- An expression of built-in commands in which every `var` is settled can be trusted. -/
theorem Pipeline.trusted_of_settled {newlineEnds : Bool} {source : String} {piped : Option ValueType}
    {known : NameMap ValueType} {p : Pipeline}
    (hread : (Directory.builtinWith newlineEnds).read source piped known = .ok p)
    (hsettled : p.Each Holdings.flow Step.Settled (.of known)) :
    p.Each Holdings.flow (Step.Trusted (Directory.builtinWith newlineEnds)) (.of known) :=
  p.each_follows (S := Step.Trusted (Directory.builtinWith newlineEnds)) Flow.table_follows
    (fun _ _ _ => Step.trusted_of_settled) (Holdings.le_refl _) (Directory.read_informed hread) hsettled

/-! ### Runs in which variables are settled -/

/-- Variables keep the types that were promised, where they are settled.  Read an expression of built-in commands for
the type of an input and the variables of a session, and run it there on this input, whatever permissions were looked
up before.  At each `var` let its variable only hold values of one type, or values of the type that `var` was read
with: types before the expression or from a `=>` that can come before, where blocks of `map` and `where` run any number
of times.  Then no new fault comes from a value of a wrong type, every command that returns, `var` like any other, does
so with a value of the type it was read with, and so does the expression. -/
theorem variables_keep_their_types {newlineEnds : Bool} {source : String} {input : Option Value} {p : Pipeline}
    {listing : List String} {session : Session} {verdicts : List ((Nat × String) × Verdict)} {v : Option Value}
    {r : Running}
    (hread : (Directory.builtinWith newlineEnds).read source (input.map Value.type) session.variableTypes = .ok p)
    (hsettled : p.Each Holdings.flow Step.Settled (.of session.variableTypes))
    (hrun : (p.run listing input).run { session, verdicts } = (v, r)) :
    (∀ f ∈ r.session.faults, f ∈ session.faults ∨ f.isMismatch = false) ∧
      (∀ site w, .returned site w ∈ r.journal → site.returns.Admits w) ∧
      ∀ w ∈ v, p.returns.Admits w := by
  obtain ⟨hp, hpiped⟩ := Directory.read_typed hread
  have hinput : AdmitsPiped p.piped (input.getD .void) := hpiped ▸ ValueType.admitsPiped_type input
  exact p.run_of_trusted hp (p.trusted_of_settled hread hsettled) hinput hrun

/-- A variable that a block sets and reads, and that is read behind the block. -/
theorem variables_keep_their_types_loop :
    let session := Session.setVariable "x" (.int 1) {}
    ∃ p v r, (Directory.builtinWith false).read "i 3 | iota | map { => $x; var $x | + 1 }; var $x | * 2"
        ((none : Option Value).map Value.type) session.variableTypes = .ok p ∧
      p.Each Holdings.flow Step.Settled (.of session.variableTypes) ∧
      (p.run [] none).run { session } = (v, r) ∧ v.bind Value.int? = some 6 ∧
      (∀ f ∈ r.session.faults, f ∈ session.faults ∨ f.isMismatch = false) ∧
        (∀ site w, .returned site w ∈ r.journal → site.returns.Admits w) ∧
        ∀ w ∈ v, p.returns.Admits w := by
  intro session
  have hchecked : ((Directory.builtinWith false).read "i 3 | iota | map { => $x; var $x | + 1 }; var $x | * 2"
      ((none : Option Value).map Value.type) session.variableTypes).toOption.any (fun p =>
        decide (p.Each Holdings.flow Step.Settled (.of session.variableTypes)) &&
          decide (((p.run [] none).run { session }).1.bind Value.int? = some 6)) = true := by decide +kernel
  obtain ⟨p, hread, hp⟩ := exists_ok_of_any hchecked
  simp only [Bool.and_eq_true, decide_eq_true_eq] at hp
  obtain ⟨hsettled, hvalue⟩ := hp
  cases hrun : (p.run [] none).run { session } with
  | mk v r =>
    rw [hrun] at hvalue
    exact ⟨p, v, r, hread, hsettled, hrun, hvalue, variables_keep_their_types hread hsettled hrun⟩

/-! ### Blocks that the table does not follow -/

/-- In the session a `var` of the expression answers with a value that is not of the type it was read with. -/
def MisreadsVariable (source : String) (session : Session) : Prop :=
  ∃ p v r, (Directory.builtinWith false).read source none session.variableTypes = .ok p ∧
    (p.run [] none).run { session } = (v, r) ∧
      ∃ site w, .returned site w ∈ r.journal ∧ site.name = "var" ∧ ¬ site.returns.Admits w

/-- In the session the run of the expression fails for a value of a wrong type. -/
def FailsForType (source : String) (session : Session) : Prop :=
  ∃ p r, (Directory.builtinWith false).read source none session.variableTypes = .ok p ∧
    (p.run [] none).run { session } = (none, r) ∧ ∃ f ∈ r.session.faults, f.isMismatch = true

theorem misreadsVariable_of_check {source : String} {session : Session}
    (h : ((Directory.builtinWith false).read source none session.variableTypes).toOption.any (fun p =>
      ((p.run [] none).run { session }).2.journal.any fun
        | .returned site w => decide (site.name = "var" ∧ site.returns = .string ∧ w.type ≠ .string)
        | _ => false) = true) : MisreadsVariable source session := by
  obtain ⟨p, hread, hjournal⟩ := exists_ok_of_any h
  obtain ⟨turn, hturn, hmisread⟩ := List.any_eq_true.mp hjournal
  cases turn with
  | returned site w =>
    obtain ⟨hname, hreturns, htype⟩ := of_decide_eq_true hmisread
    refine ⟨p, _, _, hread, rfl, site, w, hturn, hname, fun hadmits => htype ?_⟩
    rw [hreturns] at hadmits
    exact hadmits.type_eq (fun _ h => by cases h) (fun h => by cases h) fun h => by cases h
  | _ => cases hmisread

theorem failsForType_of_check {source : String} {session : Session}
    (h : ((Directory.builtinWith false).read source none session.variableTypes).toOption.any (fun p =>
      ((p.run [] none).run { session }).1.isNone &&
        ((p.run [] none).run { session }).2.session.faults.any Fault.isMismatch) = true) :
    FailsForType source session := by
  obtain ⟨p, hread, hend⟩ := exists_ok_of_any h
  obtain ⟨hnone, hfaults⟩ := (Bool.and_eq_true _ _).mp hend
  obtain ⟨f, hf, hmismatch⟩ := List.any_eq_true.mp hfaults
  cases hrun : (p.run [] none).run { session } with
  | mk v r =>
    rw [hrun] at hnone hf
    cases Option.isNone_iff_eq_none.mp hnone
    exact ⟨p, r, hread, hrun, f, hf, hmismatch⟩

/-- A block that runs on no item sets no variable, and one that runs again begins with what it has set before.  The
table knows of neither, so `var` answers with a value of another type, and the command behind it fails for that. -/
theorem blocks_outrun_the_table :
    MisreadsVariable "i 0 | iota | map { tostring | => $x }; var $x" (Session.setVariable "x" (.int 5) {}) ∧
      FailsForType "i 0 | iota | map { => $x }; var $x | + 1" (Session.setVariable "x" (.string "a") {}) ∧
      FailsForType "i 2 | iota | map { => $y; var $x | + 1 | tostring | => $x }" (Session.setVariable "x" (.int 1) {}) := by
  refine ⟨misreadsVariable_of_check ?_, failsForType_of_check ?_, failsForType_of_check ?_⟩
  · decide +kernel
  · decide +kernel
  · decide +kernel

end KeyConsole.Console
