import KeyConsole.Proofs.Console.Conduct
import KeyConsole.Proofs.Console.PipelineParts

/-!
# Proofs.Console.Noninterference: blocks that depend on their input only

A pipeline of built-in commands that touches no variable and writes no line leaves the session as it is, and the value
it comes to depends on its input alone.  It comes to this value in every session in which all the commands that it
reaches may run.  This compares two runs: the second starts where at least as much may run as where the first starts.
-/

namespace KeyConsole.Console

variable {α β : Type} {r r' r₁ r₂ r₁' r₂' : Running} {place : Nat} {command : String}

/-! ### What may run -/

/-- The command at the place may run: by what was looked up before in the same epoch, else by the session. -/
def Running.grants (r : Running) (place : Nat) (command : String) : Bool := ((Run.permits place command).run r).1

theorem Running.grants_eq (r : Running) (place : Nat) (command : String) :
    r.grants place command = (r.known? (place, command)).getD (r.session.permits command) := by
  unfold grants
  rw [Run.permits_run]
  cases r.known? (place, command) <;> rfl

/-- The session is as before, and so is what may run. -/
structure Steady (r r' : Running) : Prop where
  session : r'.session = r.session
  grants : ∀ place command, r'.grants place command = r.grants place command

/-- No faults are pending, and what may run in the first state may run in the second. -/
structure Below (r₁ r₂ : Running) : Prop where
  quiet : r₁.session.faults = []
  quiet' : r₂.session.faults = []
  grants : ∀ place command, r₁.grants place command → r₂.grants place command

namespace Steady

theorem refl (r : Running) : Steady r r := ⟨rfl, fun _ _ => rfl⟩

theorem trans {r'' : Running} (h : Steady r r') (h' : Steady r' r'') : Steady r r'' :=
  ⟨h'.session.trans h.session, fun place command => (h'.grants place command).trans (h.grants place command)⟩

/-- Entering a turn in the journal changes nothing of this. -/
theorem enter (r : Running) (t : Turn) : Steady r { r with journal := t :: r.journal } :=
  ⟨rfl, fun place command => by rw [Running.grants_eq, Running.grants_eq]; rfl⟩

theorem lookup_filter_ne {key other : Nat × String} (h : other ≠ key) (verdicts : List ((Nat × String) × Verdict)) :
    (verdicts.filter (·.1 ≠ key)).lookup other = verdicts.lookup other := by
  induction verdicts with
  | nil => rfl
  | cons e rest ih =>
    obtain ⟨k, v⟩ := e
    by_cases hk : k = key
    · have hother : (other == k) = false := beq_eq_false_iff_ne.mpr (hk ▸ h)
      rw [List.filter_cons_of_neg (by simp [hk]), ih, List.lookup_cons, hother]
    · rw [List.filter_cons_of_pos (by simp [hk]), List.lookup_cons, List.lookup_cons, ih]

/-- A verdict that is kept says what looking it up again would. -/
theorem fresh (hnew : r.known? (place, command) = none) :
    Steady r ((Run.permits.fresh place command r).run r).2 := by
  have hverdicts : ((Run.permits.fresh place command r).run r).2.verdicts =
      ((place, command), ⟨r.session.epoch, r.session.permits command⟩) ::
        r.verdicts.filter (·.1 ≠ (place, command)) := rfl
  have hsession : ((Run.permits.fresh place command r).run r).2.session = r.session := rfl
  refine ⟨rfl, fun p c => ?_⟩
  rw [Running.grants_eq, Running.grants_eq, Running.known?, hverdicts, hsession, List.lookup_cons]
  by_cases hkey : (p, c) = (place, command)
  · cases hkey
    rw [hnew, beq_self_eq_true]
    simp
  · rw [beq_eq_false_iff_ne.mpr hkey, lookup_filter_ne hkey]
    rfl

/-- Looking a permission up changes nothing of this. -/
theorem permits (r : Running) (place : Nat) (command : String) :
    Steady r ((Run.permits place command).run r).2 := by
  rw [Run.permits_run]
  cases hknown : r.known? (place, command) with
  | some permitted => exact refl r
  | none => exact fresh hknown

end Steady

namespace Below

theorem steady (h : Below r₁ r₂) (h₁ : Steady r₁ r₁') (h₂ : Steady r₂ r₂') : Below r₁' r₂' where
  quiet := by rw [h₁.session, h.quiet]
  quiet' := by rw [h₂.session, h.quiet']
  grants place command hgrants := by
    rw [h₂.grants]
    rw [h₁.grants] at hgrants
    exact h.grants place command hgrants

theorem of_steady (hquiet : r.session.faults = []) (h : Steady r r') : Below r r' where
  quiet := hquiet
  quiet' := by rw [h.session, hquiet]
  grants place command hgrants := by rwa [h.grants]

/-- In a fresh session everything may run. -/
theorem fresh (hquiet : r.session.faults = []) : Below r { session := {} } where
  quiet := hquiet
  quiet' := rfl
  grants place command _ := by
    rw [Running.grants_eq]
    rfl

end Below

/-! ### Computations that depend on nothing -/

/-- Where the computation ends with a result in `Q`, it does so from every state in which as much may run, with the same
result, and leaves the session as it is. -/
def Run.Detached (x : Run α) (Q : α → Prop) : Prop :=
  ∀ r₁ r₂, Below r₁ r₂ → Q (x.run r₁).1 →
    (x.run r₂).1 = (x.run r₁).1 ∧ Steady r₁ (x.run r₁).2 ∧ Steady r₂ (x.run r₂).2

/-- Where the computation does not fail, it depends on nothing. -/
def Eval.Detached (x : Eval α) : Prop := Run.Detached x.run fun outcome => ∃ a, outcome = .ok a

namespace Run

variable {P : α → Prop} {Q : β → Prop} {x : Run α} {k : α → Run β}

theorem Detached.pure {a : α} : Detached (Pure.pure a) P := fun r₁ r₂ _ _ => ⟨rfl, Steady.refl r₁, Steady.refl r₂⟩

/-- The whole ends well only where the first computation does. -/
theorem Detached.bind (hx : Detached x P) (hk : ∀ a, P a → Detached (k a) Q)
    (hends : ∀ a, ¬P a → ∀ r, ¬Q ((k a).run r).1) : Detached (x >>= k) Q := by
  intro r₁ r₂ h hQ
  have hP : P (x.run r₁).1 := by
    by_contra hn
    exact hends _ hn _ hQ
  obtain ⟨hsame, hfirst₁, hfirst₂⟩ := hx r₁ r₂ h hP
  obtain ⟨hsame', hrest₁, hrest₂⟩ := hk _ hP _ _ (h.steady hfirst₁ hfirst₂) hQ
  have hrun : (x >>= k).run r₂ = (k (x.run r₁).1).run (x.run r₂).2 := by
    rw [← hsame]
    rfl
  rw [hrun]
  exact ⟨hsame', hfirst₁.trans hrest₁, hfirst₂.trans hrest₂⟩

theorem Detached.enter (t : Turn) : Detached (Run.enter t) fun _ => True :=
  fun r₁ r₂ _ _ => ⟨rfl, Steady.enter r₁ t, Steady.enter r₂ t⟩

theorem Detached.permits (place : Nat) (command : String) : Detached (Run.permits place command) (· = true) :=
  fun r₁ r₂ h hgrants => ⟨(h.grants place command hgrants).trans hgrants.symm, Steady.permits r₁ place command,
    Steady.permits r₂ place command⟩

end Run

namespace Eval

variable {x : Eval α} {k : α → Eval β}

theorem Detached.pure {a : α} : Detached (Pure.pure a : Eval α) := Run.Detached.pure

theorem Detached.throw {f : Failure} : Detached (throw f : Eval α) := fun _ _ _ ⟨_, h⟩ => by cases h

theorem Detached.bind (hx : Detached x) (hk : ∀ a, (k a).Detached) : Detached (x >>= k) := by
  refine Run.Detached.bind (k := ExceptT.bindCont k) hx (fun outcome houtcome => ?_) fun outcome hfails r hends => ?_
  · obtain ⟨a, rfl⟩ := houtcome
    exact hk a
  · cases outcome with
    | ok a => exact hfails ⟨a, rfl⟩
    | error f =>
      obtain ⟨b, hb⟩ := hends
      cases hb

theorem closed_detached : Closed fun _ x => x.Detached where
  pure _ := Detached.pure
  raise _ := Detached.throw
  bind := Detached.bind

theorem Detached.asBlock {run : Run (Option Value)} (h : Run.Detached run (·.isSome)) : (Run.asBlock run).Detached := by
  intro r₁ r₂ hbelow hends
  rw [asBlock_run] at hends
  have hsome : ((run.run r₁).1).isSome := by
    cases hv : (run.run r₁).1 with
    | some v => rfl
    | none =>
      rw [hv] at hends
      obtain ⟨a, ha⟩ := hends
      cases ha
  obtain ⟨hsame, h₁, h₂⟩ := h r₁ r₂ hbelow hsome
  rw [asBlock_run, asBlock_run, hsame]
  exact ⟨rfl, h₁, h₂⟩

end Eval

/-! ### Runs -/

namespace Run

theorem Detached.settle {x : Eval Value} (hx : x.Detached) : Detached (settle x) (·.isSome) := by
  refine Detached.bind hx (fun outcome houtcome => ?_) fun outcome hfails r hsome => ?_
  · obtain ⟨v, rfl⟩ := houtcome
    exact Detached.pure
  · cases outcome with
    | ok v => exact hfails ⟨v, rfl⟩
    | error f => cases f <;> cases hsome

theorem Detached.checked (source fullName : String) (span : Span) (v : Value) :
    Detached (checked source fullName span (some v)) (·.isSome) := by
  intro r₁ r₂ h _
  rw [checked_some h.quiet, checked_some h.quiet']
  exact ⟨rfl, Steady.refl r₁, Steady.refl r₂⟩

/-- What comes after a run without a value has none either. -/
theorem Detached.bind_some {x : Run (Option Value)} {k : Option Value → Run (Option Value)}
    (hx : Detached x (·.isSome)) (hk : ∀ v, Detached (k (some v)) (·.isSome)) (hnone : ∀ r, ((k none).run r).1 = none) :
    Detached (x >>= k) (·.isSome) := by
  refine Detached.bind hx (fun v hv => ?_) fun v hv r hsome => ?_
  · obtain ⟨w, rfl⟩ := Option.isSome_iff_exists.mp hv
    exact hk w
  · rw [Option.not_isSome_iff_eq_none] at hv
    subst hv
    rw [hnone] at hsome
    cases hsome

end Run

variable {d : Directory} {listing : List String}

theorem argumentsHave_iff {P : Step → Prop} {arguments : List Argument} :
    argumentsHave P arguments ↔ ∃ a ∈ arguments, ∃ p ∈ a.pipeline?, p.Has P := by
  induction arguments with
  | nil => exact ⟨False.elim, fun ⟨_, ha, _⟩ => (List.not_mem_nil ha).elim⟩
  | cons a rest ih =>
    have hfirst : a.Has P ↔ ∃ p ∈ a.pipeline?, p.Has P := by
      cases a <;> simp [Argument.Has, Argument.pipeline?]
    rw [List.exists_mem_cons_iff, ← hfirst, ← ih]
    rfl

/-- The step has the property itself, or a block of it has a step that does. -/
theorem Step.has_iff {P : Step → Prop} (s : Step) :
    s.Has P ↔ P s ∨ ∃ a ∈ s.arguments, ∃ p ∈ a.pipeline?, p.Has P := by
  rw [← argumentsHave_iff]
  cases s
  rfl

/-- A step has a value only where its command may run. -/
theorem Step.detached_run {s : Step} {v : Value} (hcall : (s.signature.run (s.call listing v)).Detached) :
    Run.Detached (s.run listing v) (·.isSome) := by
  rw [Step.run_eq]
  refine Run.Detached.bind (Run.Detached.permits s.span.start s.name) (fun permitted hpermitted => ?_) ?_
  · subst hpermitted
    refine Run.Detached.bind (Run.Detached.enter _) (fun _ _ => ?_) fun _ h => absurd trivial h
    refine Run.Detached.bind_some (Run.Detached.settle hcall) (fun w => ?_) fun r => rfl
    exact Run.Detached.bind (Run.Detached.enter _) (fun _ _ => Run.Detached.pure) fun _ h => absurd trivial h
  · intro permitted hrefused r hsome
    rw [Bool.not_eq_true] at hrefused
    subst hrefused
    cases hsome

theorem detached_induction (hd : d.Conducts) : TypedInduction d
    (fun p => ¬p.Has Step.UsesContext → ∀ input, Run.Detached (p.runNested listing input) (·.isSome))
    fun s => ¬s.Has Step.UsesContext → ∀ v, Run.Detached (s.run listing v) (·.isSome) where
  done _ _ _ _ _ _ := Run.Detached.pure
  next s _ _ _ _ hs _ hrest hfree _ := by
    obtain ⟨hsfree, hrestfree⟩ := not_or.mp hfree
    rw [Pipeline.runNested_cons]
    refine Run.Detached.bind_some (hs hsfree _) (fun w => ?_) fun r => rfl
    exact Run.Detached.bind_some (Run.Detached.checked _ _ _ _) (fun w => hrest hrestfree (some w)) fun r => rfl
  step s hs hblocks hfree v := by
    obtain ⟨hown, hinner⟩ := not_or.mp (s.has_iff.not.mp hfree)
    refine Step.detached_run (hd.call hs Eval.closed_detached (fun huses => absurd huses hown) ?_ v)
    exact fun a ha p hp input =>
      Eval.Detached.asBlock (hblocks a ha p hp (fun hhas => hinner ⟨a, ha, p, hp, hhas⟩) input)

/-- The steps of a pipeline that uses no variable and writes no line depend on nothing but what may run. -/
theorem Pipeline.detached_runNested (hd : d.Conducts) {p : Pipeline} (hp : p.Typed d) (hfree : ¬p.Has Step.UsesContext)
    (input : Option Value) : Run.Detached (p.runNested listing input) (·.isSome) :=
  (detached_induction hd).pipeline p hp hfree input

/-- A run by itself has a value just if no faults are pending and the steps have it. -/
theorem Pipeline.run_eq_some {p : Pipeline} {input : Option Value} {v : Value} :
    ((p.run listing input).run r).1 = some v ↔
      r.session.faults = [] ∧ ((p.runNested listing input).run r).1 = some v := by
  by_cases hquiet : r.session.faults = []
  · cases hsteps : (p.runNested listing input).run r with
    | mk w r' =>
      cases w with
      | some w => simp [Pipeline.run_some hquiet hsteps, hquiet]
      | none => simp [Pipeline.run_none hquiet hsteps]
  · simp [Pipeline.run_pending hquiet, hquiet]

/-- A pipeline of built-in commands that touches no variable and writes no line comes to the same value in every session
without faults pending where as much may run, and leaves the session as it is. -/
theorem Pipeline.detached_run (hd : d.Conducts) {p : Pipeline} (hp : p.Typed d) (hfree : ¬p.Has Step.UsesContext)
    (input : Option Value) : Run.Detached (p.run listing input) (·.isSome) := by
  intro r₁ r₂ h hsome
  obtain ⟨v, hv⟩ := Option.isSome_iff_exists.mp hsome
  have hsteps := (Pipeline.run_eq_some.mp hv).2
  obtain ⟨hsame, h₁, h₂⟩ := p.detached_runNested hd hp hfree input r₁ r₂ h (by rw [hsteps]; rfl)
  have hrun₁ : (p.run listing input).run r₁ = (some v, ((p.runNested listing input).run r₁).2) :=
    Pipeline.run_some h.quiet (Prod.ext hsteps rfl)
  have hrun₂ : (p.run listing input).run r₂ = (some v, ((p.runNested listing input).run r₂).2) :=
    Pipeline.run_some h.quiet' (Prod.ext (hsame.trans hsteps) rfl)
  rw [hrun₁, hrun₂]
  exact ⟨rfl, h₁, h₂⟩

/-- The value that such a pipeline comes to anywhere is the one that it comes to in a fresh session. -/
theorem Pipeline.run_fresh (hd : d.Conducts) {p : Pipeline} (hp : p.Typed d) (hfree : ¬p.Has Step.UsesContext)
    {input : Option Value} {v : Value} (hv : ((p.run listing input).run r).1 = some v) :
    ((p.run listing input).run { session := {} }).1 = some v := by
  have hquiet := (Pipeline.run_eq_some.mp hv).1
  exact ((p.detached_run hd hp hfree input) _ _ (Below.fresh hquiet) (by rw [hv]; rfl)).1.trans hv

end KeyConsole.Console
