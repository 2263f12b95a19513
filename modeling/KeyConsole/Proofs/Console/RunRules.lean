import KeyConsole.Console.Pipeline

/-!
# Proofs.Console.RunRules: a small program logic for running commands

`Run.Leads I x Q` says that `x`, started where `I` holds, ends with a result and a state for which `Q` holds.
`Run.Keeps I x Q` is the case that `I` holds again, and `Q` of the result.  `Eval.Brings I J E x Q` says of a
computation that may fail that it comes from `I` to `J`; if it fails, `E` holds of its failure and of the state it
leaves.  `Eval.Keeps I E x Q` is the case that it comes to `I` again.
-/

namespace KeyConsole.Console

variable {α β : Type} {I J K : Running → Prop} {E : Failure → Running → Prop}

/-- From `I` the computation comes to a result and a state for which `Q` holds. -/
def Run.Leads (I : Running → Prop) (x : Run α) (Q : α → Running → Prop) : Prop :=
  ∀ r, I r → Q (x.run r).1 (x.run r).2

/-- From `I` the computation comes to `I` again, with a result for which `Q` holds. -/
def Run.Keeps (I : Running → Prop) (x : Run α) (Q : α → Prop) : Prop :=
  Run.Leads I x fun a r => I r ∧ Q a

/-- The demand on how a computation ends: `I` and `Q` for a result, `E` for a failure. -/
def Eval.Demand (I : Running → Prop) (E : Failure → Running → Prop) (Q : α → Prop) :
    Except Failure α → Running → Prop
  | .ok a, r => I r ∧ Q a
  | .error f, r => E f r

/-- From `I` the computation comes to `J`, with a result for which `Q` holds, or fails with `E`. -/
def Eval.Brings (I J : Running → Prop) (E : Failure → Running → Prop) (x : Eval α) (Q : α → Prop) : Prop :=
  Run.Leads I x.run (Eval.Demand J E Q)

/-- From `I` the computation comes to `I` again, with a result for which `Q` holds, or fails with `E`. -/
abbrev Eval.Keeps (I : Running → Prop) (E : Failure → Running → Prop) (x : Eval α) (Q : α → Prop) : Prop :=
  Eval.Brings I I E x Q

namespace Run

variable {P : α → Prop} {Q : β → Prop} {x : Run α} {k : α → Run β}

theorem Leads.bind {R : α → Running → Prop} {S : β → Running → Prop} (hx : Leads I x R)
    (hk : ∀ a, Leads (R a) (k a) S) : Leads I (x >>= k) S :=
  fun r hr => hk (x.run r).1 (x.run r).2 (hx r hr)

theorem Leads.mono {R S : α → Running → Prop} (hx : Leads I x R) (h : ∀ a r, R a r → S a r) :
    Leads I x S :=
  fun r hr => h _ _ (hx r hr)

/-- The computation is only begun where more holds. -/
theorem Leads.of {R : α → Running → Prop} (hx : Leads J x R) (h : ∀ r, I r → J r) : Leads I x R :=
  fun r hr => hx r (h r hr)

theorem Keeps.pure {a : α} (h : P a) : Keeps I (Pure.pure a) P := fun _ hr => ⟨hr, h⟩

theorem Keeps.bind (hx : Keeps I x P) (hk : ∀ a, P a → Keeps I (k a) Q) : Keeps I (x >>= k) Q :=
  Leads.bind hx fun a r hr => hk a hr.2 r hr.1

/-- The state is looked at; `I` holds of it. -/
theorem Keeps.get : Keeps I MonadState.get I := fun _ hr => ⟨hr, hr⟩

theorem Keeps.update {f : Running → Running} (h : ∀ r, I r → I (f r)) :
    Keeps I (modify f) fun _ => True := fun r hr => ⟨h r hr, trivial⟩

end Run

namespace Eval

variable {P : α → Prop} {Q : β → Prop} {x : Eval α} {k : α → Eval β}

theorem Brings.pure {a : α} (h : P a) : Brings I I E (Pure.pure a) P := fun _ hr => ⟨hr, h⟩

theorem Brings.throw {f : Failure} (h : ∀ r, I r → E f r) : Brings I J E (throw f) P := h

/-- A failure of the first computation is the failure of both. -/
theorem Brings.bind (hx : Brings I J E x P) (hk : ∀ a, P a → Brings J K E (k a) Q) :
    Brings I K E (x >>= k) Q := by
  refine Run.Leads.bind (k := ExceptT.bindCont k) hx fun outcome r hr => ?_
  cases outcome with
  | ok a => exact hk a hr.2 r hr.1
  | error f => exact hr

theorem Brings.mono {P' : α → Prop} (hx : Brings I J E x P) (hJ : ∀ r, J r → K r) (h : ∀ a, P a → P' a) :
    Brings I K E x P' := by
  refine Run.Leads.mono hx fun outcome r hr => ?_
  cases outcome with
  | ok a => exact ⟨hJ r hr.1, h a hr.2⟩
  | error f => exact hr

/-- The computation is only begun where more holds. -/
theorem Brings.of (hx : Brings J K E x P) (h : ∀ r, I r → J r) : Brings I K E x P := Run.Leads.of hx h

theorem Brings.update {f : Running → Running} (h : ∀ r, I r → J (f r)) :
    Brings I J E (modify f) fun _ => True := fun r hr => ⟨h r hr, trivial⟩

theorem Brings.ite {c : Prop} [Decidable c] {y : Eval α} (hx : c → Brings I J E x P)
    (hy : ¬c → Brings I J E y P) : Brings I J E (if c then x else y) P := by
  split
  · rename_i h
    exact hx h
  · rename_i h
    exact hy h

theorem Keeps.pure {a : α} (h : P a) : Keeps I E (Pure.pure a) P := Brings.pure h

theorem Keeps.throw {f : Failure} (h : ∀ r, I r → E f r) : Keeps I E (throw f) P := h

theorem Keeps.bind (hx : Keeps I E x P) (hk : ∀ a, P a → Keeps I E (k a) Q) : Keeps I E (x >>= k) Q :=
  Brings.bind hx hk

/-- The state is looked at; `I` holds of it. -/
theorem Keeps.get : Keeps I E MonadState.get I := fun _ hr => ⟨hr, hr⟩

theorem Keeps.update {f : Running → Running} (h : ∀ r, I r → I (f r)) :
    Keeps I E (modify f) fun _ => True := Brings.update h

theorem Keeps.forM {β : Type} {f : β → Eval PUnit} (h : ∀ b, Keeps I E (f b) fun _ => True) (xs : List β) :
    Keeps I E (xs.forM f) fun _ => True := by
  induction xs with
  | nil => exact Keeps.pure trivial
  | cons x xs ih => exact Keeps.bind (h x) fun _ _ => ih

/-- A block whose run has no value fails, with its faults reported. -/
theorem asBlock_run (run : Run (Option Value)) (r : Running) :
    (Run.asBlock run).run.run r
      = ((run.run r).1.elim (.error .reported) .ok, (run.run r).2) := by
  cases hrun : run.run r with
  | mk v r' =>
    have hlift : (liftM run : Eval (Option Value)).run.run r = (.ok v, r') := by
      rw [ExceptT.run_liftM, StateT.run_map, hrun]
      rfl
    unfold Run.asBlock
    rw [ExceptT.run_bind, StateT.run_bind, hlift]
    cases v <;> rfl

theorem Brings.asBlock {run : Run (Option Value)} {P : Value → Prop}
    (h : Run.Leads I run fun v r => v.elim (E .reported r) fun w => J r ∧ P w) :
    Brings I J E (Run.asBlock run) P := by
  intro r hr
  have hend := h r hr
  rw [asBlock_run]
  cases hv : (run.run r).1 with
  | none =>
    rw [hv] at hend
    exact hend
  | some w =>
    rw [hv] at hend
    exact hend

theorem Keeps.asBlock {run : Run (Option Value)} {P : Value → Prop}
    (h : Run.Leads I run fun v r => v.elim (E .reported r) fun w => I r ∧ P w) :
    Keeps I E (Run.asBlock run) P := Brings.asBlock h

end Eval

/-! ### Permissions -/

/-- What was looked up before in the same epoch. -/
def Running.known? (r : Running) (key : Nat × String) : Option Bool :=
  (r.verdicts.lookup key).bind fun v => if v.epoch = r.session.epoch then some v.permitted else none

/-- What looking a permission up comes to: the answer is the session's own or that of a verdict from this epoch, and
the verdicts that are kept were there before or are of this session. -/
structure Running.LooksUp (r : Running) (place : Nat) (command : String) (permitted : Bool)
    (verdicts : List ((Nat × String) × Verdict)) : Prop where
  answer : permitted = r.session.permits command ∨
    ∃ v, ((place, command), v) ∈ r.verdicts ∧ v.epoch = r.session.epoch ∧ permitted = v.permitted
  kept : ∀ e ∈ verdicts, e ∈ r.verdicts ∨ e = ((place, command), ⟨r.session.epoch, r.session.permits command⟩)

theorem Run.permits_run (r : Running) (place : Nat) (command : String) :
    (Run.permits place command).run r =
      (r.known? (place, command)).elim ((Run.permits.fresh place command r).run r) fun permitted => (permitted, r) := by
  unfold Run.permits Running.known?
  simp only [StateT.run_bind, StateT.run_get, pure_bind]
  cases r.verdicts.lookup (place, command) with
  | none => rfl
  | some v =>
    by_cases hepoch : v.epoch = r.session.epoch
    · simp only [hepoch, if_true, Option.bind_some]
      rfl
    · simp only [hepoch, if_false, Option.bind_some, Option.elim_none]

/-- Looking a permission up changes the verdicts only. -/
theorem Run.leads_permits {place : Nat} {command : String} {Q : Bool → Running → Prop}
    (h : ∀ r, I r → ∀ permitted verdicts, r.LooksUp place command permitted verdicts → Q permitted { r with verdicts }) :
    Leads I (permits place command) Q := by
  intro r hr
  rw [permits_run]
  cases hknown : r.known? (place, command) with
  | some permitted =>
    obtain ⟨v, hv, hpermitted⟩ := Option.bind_eq_some_iff.mp hknown
    obtain ⟨hepoch, hsame⟩ := Option.ite_none_right_eq_some.mp hpermitted
    cases hsame
    obtain ⟨front, behind, hverdicts, -⟩ := List.lookup_eq_some_iff.mp hv
    have hmem : ((place, command), v) ∈ r.verdicts := by
      rw [hverdicts]
      exact List.mem_append_right _ List.mem_cons_self
    exact h r hr _ _ ⟨.inr ⟨v, hmem, hepoch, rfl⟩, fun e he => .inl he⟩
  | none =>
    refine h r hr _ _ ⟨.inl rfl, fun e he => ?_⟩
    rcases List.mem_cons.mp he with rfl | he
    · exact .inr rfl
    · exact .inl (List.mem_filter.mp he).1

/-- What does not speak of the verdicts holds on when a permission is looked up. -/
theorem Run.keeps_permits {place : Nat} {command : String} (h : ∀ r verdicts, I r → I { r with verdicts }) :
    Keeps I (permits place command) fun _ => True :=
  leads_permits fun r hr _ verdicts _ => ⟨h r verdicts hr, trivial⟩

/-! ### Steps and pipelines -/

variable {r r' : Running} {source fullName : String} {span : Span} {listing : List String} {p : Pipeline}
  {input : Option Value} {v : Value}

/-- A step that has left no faults behind has its value. -/
theorem Run.checked_some (h : r.session.faults = []) : (checked source fullName span (some v)).run r = (some v, r) := by
  unfold checked
  simp only [StateT.run_bind, StateT.run_get, pure_bind, h]
  rfl

/-- Without faults pending a pipeline runs its steps. -/
theorem Pipeline.run_some (h : r.session.faults = []) (hsteps : (p.runNested listing input).run r = (some v, r')) :
    (p.run listing input).run r = (some v, r') := by
  unfold Pipeline.run
  simp only [StateT.run_bind, StateT.run_get, pure_bind, h, List.isEmpty_nil, Bool.not_true, Bool.false_eq_true,
    if_false, hsteps]
  rfl

/-- If they fail, the faults are written out. -/
theorem Pipeline.run_none (h : r.session.faults = []) (hsteps : (p.runNested listing input).run r = (none, r')) :
    (p.run listing input).run r = (none, { r' with session :=
      { r'.session with output := r'.session.output ++ (r'.session.faults.map Fault.rendered).toArray } }) := by
  unfold Pipeline.run
  simp only [StateT.run_bind, StateT.run_get, pure_bind, h, List.isEmpty_nil, Bool.not_true, Bool.false_eq_true,
    if_false, hsteps]
  rfl

/-- With faults pending a pipeline does not run at all. -/
theorem Pipeline.run_pending (h : r.session.faults ≠ []) :
    (p.run listing input).run r = (none, { r with session := r.session.report { cause := .pendingFaults } }) := by
  obtain ⟨f, rest, hcons⟩ := List.exists_cons_of_ne_nil h
  unfold Pipeline.run
  simp only [StateT.run_bind, StateT.run_get, pure_bind, hcons, List.isEmpty_cons, Bool.not_false, if_true]
  rfl

end KeyConsole.Console
