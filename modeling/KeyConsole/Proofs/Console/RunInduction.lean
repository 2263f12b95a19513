import KeyConsole.Proofs.Console.RunRules
import KeyConsole.Proofs.Console.Typing

/-!
# Proofs.Console.RunInduction: one induction for all that is said of runs

A property of the runs of typed pipelines is shown by what it needs where no step is left, for one step more in front,
and for a step whose blocks have it.  The rules say what a step, a row of steps and a whole pipeline come to when that
of their parts is known.
-/

namespace KeyConsole.Console

variable {I J : Running → Prop} {Q : Option Value → Running → Prop} {listing : List String}

/-! ### Typed pipelines -/

/-- The pipeline in the block that the argument may be. -/
def Argument.pipeline? : Argument → Option Pipeline
  | .valueBlock p => some p
  | .block p => some p
  | _ => none

/-- The cases of an induction on typed pipelines: `B` holds of pipelines and blocks, `S` of steps.  Behind the last
step there is a pipeline without steps, which returns what is piped in or drops it. -/
structure TypedInduction (d : Directory) (B : Pipeline → Prop) (S : Step → Prop) : Prop where
  done : ∀ source t returns, returns = t ∨ returns = .void → B ⟨[], source, some t, returns⟩
  next : ∀ s rest source piped returns, S s → piped = some s.returns ∨ piped = none →
    B ⟨rest, source, piped, returns⟩ → B ⟨s :: rest, source, s.piped, returns⟩
  step : ∀ s : Step, s.Typed d → (∀ a ∈ s.arguments, ∀ p ∈ a.pipeline?, B p) → S s

namespace TypedInduction

variable {d : Directory} {B : Pipeline → Prop} {S : Step → Prop}

mutual

/-- Every typed pipeline has the property. -/
theorem pipeline (h : TypedInduction d B S) : (p : Pipeline) → p.Typed d → B p
  | ⟨steps, source, piped, returns⟩, hp => h.row source steps piped returns hp

theorem row (h : TypedInduction d B S) (source : String) : (steps : List Step) → ∀ piped returns,
    stepsTyped d steps piped returns → B ⟨steps, source, piped, returns⟩
  | [], _, _, hsteps => hsteps.elim
  | s :: rest, _, returns, ⟨hs, rfl, hrest⟩ => by
    have hstep := h.ofStep s hs
    rcases hrest with ⟨rfl, hreturns⟩ | hrest | hrest
    · exact h.next s [] source _ returns hstep (.inl rfl) (h.done source _ returns hreturns)
    · exact h.next s rest source _ returns hstep (.inl rfl) (h.row source rest _ returns hrest)
    · exact h.next s rest source _ returns hstep (.inr rfl) (h.row source rest _ returns hrest)

theorem ofStep (h : TypedInduction d B S) : (s : Step) → s.Typed d → S s
  | ⟨_, _, _, piped, _, arguments, signature, _, _⟩, hs =>
    h.step _ hs (h.blocks arguments signature.parameters piped hs.1)

theorem blocks (h : TypedInduction d B S) : (arguments : List Argument) → ∀ parameters piped,
    argumentsTyped d arguments parameters piped → ∀ a ∈ arguments, ∀ p ∈ a.pipeline?, B p
  | [], _, _, _ => fun _ ha => (List.not_mem_nil ha).elim
  | _ :: _, [], _, harguments => harguments.elim
  | a :: rest, ⟨_, kind⟩ :: parameters, piped, harguments => by
    obtain ⟨ha, hrest⟩ := harguments
    refine List.forall_mem_cons.mpr ⟨fun p hp => ?_, h.blocks rest parameters piped hrest⟩
    match a, kind, hp with
    | .valueBlock p, .value _, rfl => exact h.pipeline p ha.1
    | .block p, .block _ _, rfl => exact h.pipeline p ha.1

end

end TypedInduction

/-! ### Steps -/

namespace Step

/-- Where the step stands, as the journal has it. -/
def site (s : Step) : Site :=
  { name := s.name, subcommand := s.subcommand, span := s.span, piped := s.piped, returns := s.returns }

/-- What the implementation is called with. -/
def call (listing : List String) (s : Step) (v : Value) : Call :=
  { piped := v, inverted := s.inverted, types := s.types, arguments := bindAll listing s.arguments, listing }

/-- How the command ends, as the journal has it. -/
def ending (s : Step) (result : Option Value) : Turn := result.elim (.failed s.site) (.returned s.site)

theorem run_eq (s : Step) (v : Value) :
    s.run listing v = (do
      if ← Run.permits s.span.start s.name then
        Run.enter (.started s.site v)
        match ← Run.settle (s.signature.run (s.call listing v)) with
        | some w =>
          Run.enter (.returned s.site w)
          return some w
        | none =>
          Run.enter (.failed s.site)
          return none
      else
        Run.enter (.refused s.site)
        Run.report { cause := .noPermission s.fullName }
        return none) := by
  cases s
  rfl

variable {s : Step} {v : Value}

/-- A step is refused, or it starts and what its implementation comes to is the end of it. -/
theorem leads_run {A : Bool → Running → Prop} (hpermits : Run.Leads I (Run.permits s.span.start s.name) A)
    (hrefused : ∀ r, A false r → Q none { r with
      session := r.session.report { cause := .noPermission s.fullName }, journal := .refused s.site :: r.journal })
    (hstarted : ∀ r, A true r → J { r with journal := .started s.site v :: r.journal })
    (hends : Run.Leads J (Run.settle (s.signature.run (s.call listing v)))
      fun result r => Q result { r with journal := s.ending result :: r.journal }) :
    Run.Leads I (s.run listing v) Q := by
  rw [run_eq]
  refine Run.Leads.bind hpermits fun permitted => ?_
  cases permitted with
  | false => exact hrefused
  | true =>
    refine Run.Leads.bind (R := fun _ => J) hstarted fun _ => Run.Leads.bind hends fun result => ?_
    cases result with
    | some w => exact fun r hr => hr
    | none => exact fun r hr => hr

end Step

theorem bindAll_eq_map (arguments : List Argument) :
    bindAll listing arguments = arguments.map (Argument.bind listing) := by
  induction arguments with
  | nil => rfl
  | cons a rest ih => exact congrArg (a.bind listing :: ·) ih

/-! ### Pipelines -/

namespace Pipeline

theorem runNested_cons (s : Step) (rest : List Step) (source : String) (piped : Option ValueType)
    (returns : ValueType) (input : Option Value) :
    runNested listing ⟨s :: rest, source, piped, returns⟩ input = (do
      match ← Run.checked source s.fullName s.span (← s.run listing (input.getD .void)) with
      | some w => runSteps listing source rest w
      | none => return none) := rfl

/-- The first step is run and checked, and what it comes to goes to the others. -/
theorem leads_runNested_cons {s : Step} {rest : List Step} {source : String} {piped : Option ValueType}
    {returns : ValueType} {input : Option Value} {R C : Option Value → Running → Prop}
    (hstep : Run.Leads I (s.run listing (input.getD .void)) R)
    (hchecked : ∀ result, Run.Leads (R result) (Run.checked source s.fullName s.span result) C)
    (hrest : ∀ w, Run.Leads (C (some w)) (runSteps listing source rest w) Q) (hnone : ∀ r, C none r → Q none r) :
    Run.Leads I (runNested listing ⟨s :: rest, source, piped, returns⟩ input) Q := by
  rw [runNested_cons]
  refine Run.Leads.bind hstep fun result => Run.Leads.bind (hchecked result) fun checked => ?_
  cases checked with
  | none => exact hnone
  | some w => exact hrest w

variable {p : Pipeline} {input : Option Value}

/-- A pipeline does not run with faults pending; else it comes to what its steps come to, and writes out the faults
of these. -/
theorem leads_run (hpending : ∀ r, I r → Q none { r with session := r.session.report { cause := .pendingFaults } })
    (hsteps : Run.Leads (fun r => I r ∧ r.session.faults = []) (p.runNested listing input) fun result r =>
      result.elim (Q none { r with session :=
        { r.session with output := r.session.output ++ (r.session.faults.map Fault.rendered).toArray } })
        fun w => Q (some w) r) :
    Run.Leads I (p.run listing input) Q := by
  intro r hr
  by_cases hquiet : r.session.faults = []
  · have hend := hsteps r ⟨hr, hquiet⟩
    cases hrun : (p.runNested listing input).run r with
    | mk result r' =>
      rw [hrun] at hend
      cases result with
      | some w =>
        rw [run_some hquiet hrun]
        exact hend
      | none =>
        rw [run_none hquiet hrun]
        exact hend
  · rw [run_pending hquiet]
    exact hpending r hr

end Pipeline

end KeyConsole.Console
