import KeyConsole.Proofs.Console.FailedRuns
import Mathlib.Data.List.Basic

/-!
# Proofs.Console.Handover: what one step hands on to the next

While an expression is read, a `;` drops the type that is piped on.  While it runs, nothing is dropped: each step
but the first gets the value that the step before has returned.
-/

namespace KeyConsole.Console

variable {listing : List String} {source : String}

/-- Run the steps from some value on, if there is a value. -/
def runStepsOn (listing : List String) (source : String) (steps : List Step) (v : Option Value) : Run (Option Value) :=
  match v with
  | some w => runSteps listing source steps w
  | none => return none

/-- Steps in a row run one row after the other, and the second takes the value of the first. -/
theorem runSteps_append (first second : List Step) (v : Value) :
    runSteps listing source (first ++ second) v
      = runSteps listing source first v >>= runStepsOn listing source second := by
  induction first generalizing v with
  | nil => rfl
  | cons s first ih =>
    rw [List.cons_append]
    unfold runSteps
    simp only [bind_assoc]
    congr 1
    funext returned
    congr 1
    funext checked
    cases checked with
    | none => rfl
    | some w => exact ih w

/-- The value, if there is one, is what the step has just returned. -/
def JustReturned (s : Step) (v : Option Value) (r : Running) : Prop :=
  ∀ w ∈ v, r.journal.head? = some (.returned s.site w)

theorem Step.justReturned_run (s : Step) (u : Value) :
    Run.Leads (fun _ => True) (s.run listing u) (JustReturned s) := by
  refine s.leads_run (A := fun _ _ => True) (J := fun _ => True) (fun _ _ => trivial) (fun _ _ w hw => by cases hw)
    (fun _ _ => trivial) (Run.Leads.mono (R := fun _ _ => True) (fun _ _ => trivial) fun result r _ w hw => ?_)
  cases hw
  rfl

/-- Checking keeps the state of a step that has a value. -/
theorem Run.justReturned_checked (s : Step) (source : String) (v : Option Value) :
    Run.Leads (JustReturned s v) (Run.checked source s.fullName s.span v) (JustReturned s) := by
  unfold Run.checked
  refine Run.Leads.bind (R := fun r r' => r = r' ∧ JustReturned s v r) (fun r h => ⟨rfl, h⟩) fun r => ?_
  dsimp only
  split
  · rintro r' ⟨rfl, h⟩
    exact h
  · exact fun r _ w hw => by cases hw

theorem justReturned_runSteps (before : List Step) (s : Step) (u : Value) :
    Run.Leads (fun _ => True) (runSteps listing source (before ++ [s]) u) (JustReturned s) := by
  rw [runSteps_append]
  refine Run.Leads.bind (R := fun _ _ => True) (fun _ _ => trivial) fun first => ?_
  cases first with
  | none => exact fun r _ w hw => by cases hw
  | some v =>
    unfold runStepsOn runSteps
    refine Run.Leads.bind (s.justReturned_run v) fun returned => ?_
    refine Run.Leads.bind (Run.justReturned_checked s source returned) fun checked => ?_
    cases checked with
    | none => exact fun r _ w hw => by cases hw
    | some w =>
      unfold runSteps
      exact fun r h => h

/-- A step is run on the value that the step before it has returned, whatever types the two were read with. -/
theorem Pipeline.next_step_takes_value {p : Pipeline} {before rest : List Step} {s t : Step} {input : Option Value}
    {v : Value} {r r' : Running} (hsteps : p.steps = before ++ s :: t :: rest)
    (hrun : (runSteps listing p.source (before ++ [s]) (input.getD .void)).run r = (some v, r')) :
    r'.journal.head? = some (.returned s.site v) ∧
      (p.runNested listing input).run r = (runSteps listing p.source (t :: rest) v).run r' := by
  obtain ⟨steps, source, piped, returns⟩ := p
  obtain rfl : steps = (before ++ [s]) ++ t :: rest := by simpa using hsteps
  refine ⟨?_, ?_⟩
  · have hreturned : JustReturned s ((runSteps listing source (before ++ [s]) (input.getD .void)).run r).1
        ((runSteps listing source (before ++ [s]) (input.getD .void)).run r).2 :=
      justReturned_runSteps before s (input.getD .void) r trivial
    rw [hrun] at hreturned
    exact hreturned v rfl
  · unfold Pipeline.runNested
    rw [runSteps_append, StateT.run_bind, hrun]
    rfl

/-- Behind a `;` too: the second step is run on the 5 that the first has returned. -/
theorem next_step_takes_value_semicolon :
    ∃ p s t v r', (Directory.builtinWith false).read "i 5; i 2" none {} = .ok p ∧ p.steps = [] ++ s :: t :: [] ∧
      t.piped = none ∧ (runSteps [] p.source ([] ++ [s]) .void).run { session := {} } = (some v, r') ∧
      v.int? = some 5 ∧ r'.journal.head? = some (.returned s.site v) ∧
      (p.runNested [] none).run { session := {} } = (runSteps [] p.source (t :: []) v).run r' := by
  have hchecked : ((Directory.builtinWith false).read "i 5; i 2" none {}).toOption.any (fun p =>
      decide (p.steps.length = 2) && p.steps.tail.all (·.piped.isNone) &&
        decide (((runSteps [] p.source (p.steps.take 1) .void).run { session := {} }).1.bind Value.int? = some 5))
      = true := by decide +kernel
  obtain ⟨p, hread, hp⟩ := exists_ok_of_any hchecked
  simp only [Bool.and_eq_true, decide_eq_true_eq] at hp
  obtain ⟨⟨hlength, hpiped⟩, hvalue⟩ := hp
  obtain ⟨s, t, hsteps⟩ := List.length_eq_two.mp hlength
  rw [hsteps] at hpiped hvalue
  cases hrun : (runSteps [] p.source [s] .void).run { session := {} } with
  | mk v r' =>
    have hfive : v.bind Value.int? = some 5 := by
      rw [List.take_one, List.head?_cons, Option.toList_some, hrun] at hvalue
      exact hvalue
    obtain ⟨w, rfl, hw⟩ := Option.bind_eq_some_iff.mp hfive
    have hfirst : (runSteps [] p.source ([] ++ [s]) ((none : Option Value).getD .void)).run { session := {} }
        = (some w, r') := hrun
    have hall : p.steps = [] ++ s :: t :: [] := hsteps
    obtain ⟨hreturned, hrest⟩ := Pipeline.next_step_takes_value hall hfirst
    exact ⟨p, s, t, w, r', hread, hsteps, by simpa using hpiped, hrun, hw, hreturned, hrest⟩

/-- The turn starts a step on a value other than void. -/
def Turn.startsOnValue (site : Site) : Turn → Bool
  | .started other w => decide (other = site) && !w.isVoid
  | _ => false

theorem Turn.eq_started {site : Site} {turn : Turn} (h : turn.startsOnValue site) :
    ∃ w, turn = .started site w ∧ w.isVoid = false := by
  cases turn with
  | started other w =>
    obtain ⟨hsite, hvoid⟩ := (Bool.and_eq_true _ _).mp h
    exact ⟨w, by rw [of_decide_eq_true hsite], (Bool.not_eq_true' _).mp hvoid⟩
  | _ => cases h

/-- A step that was read with nothing piped to it, and that does not start with the void value. -/
theorem piped_value_outlives_semicolon :
    ∃ p s t r, (Directory.builtinWith false).read "i 5; i 2" none {} = .ok p ∧ p.steps = [s, t] ∧
      t.piped = none ∧ ((p.run [] none).run { session := {} }).2 = r ∧
      ∃ w, .started t.site w ∈ r.journal ∧ w.isVoid = false := by
  have hchecked : ((Directory.builtinWith false).read "i 5; i 2" none {}).toOption.any (fun p =>
      decide (p.steps.length = 2) && p.steps.tail.all fun t => t.piped.isNone &&
        ((p.run [] none).run { session := {} }).2.journal.any (Turn.startsOnValue t.site)) = true := by
    decide +kernel
  obtain ⟨p, hread, hp⟩ := exists_ok_of_any hchecked
  obtain ⟨hlength, hlast⟩ := (Bool.and_eq_true _ _).mp hp
  obtain ⟨s, t, hsteps⟩ := List.length_eq_two.mp (of_decide_eq_true hlength)
  rw [hsteps, List.tail_cons, List.all_cons, List.all_nil, Bool.and_true] at hlast
  obtain ⟨hpiped, hstarted⟩ := (Bool.and_eq_true _ _).mp hlast
  obtain ⟨turn, hmem, hturn⟩ := List.any_eq_true.mp hstarted
  obtain ⟨w, rfl, hvoid⟩ := Turn.eq_started hturn
  exact ⟨p, s, t, _, hread, hsteps, Option.isNone_iff_eq_none.mp hpiped, rfl, w, hmem, hvoid⟩

end KeyConsole.Console
