import KeyConsole.Console.Program
import KeyConsole.Proofs.Console.Conduct
import KeyConsole.Proofs.Console.Coverage
import KeyConsole.Proofs.Console.Explanations
import KeyConsole.Proofs.Console.SourceText

/-!
# Proofs.Console.FailedRuns: a run that fails stops at once and reports once

As long as all goes well, the session holds no fault, and its lines and variables are those that the commands
have written.  The first command that may not run or fails is the innermost at work.  After it nothing happens
but that the commands around it fail too, from the inside out, and all that is reported is its fault.
-/

namespace KeyConsole.Console

open Ordered (NameMap)

/-! ### Journals -/

/-- A command may not run, or it fails. -/
def Turn.isSetback : Turn → Bool
  | refused _ | failed _ => true
  | _ => false

/-- The commands that have started and not come to an end, the innermost in front. -/
def commandsAtWork : List Turn → List Site
  | [] => []
  | .started site _ :: before => site :: commandsAtWork before
  | .returned .. :: before | .failed _ :: before => (commandsAtWork before).tail
  | _ :: before => commandsAtWork before

/-- The lines that commands have written. -/
def linesWritten : List Turn → List String
  | [] => []
  | .wrote line :: before => linesWritten before ++ [line]
  | _ :: before => linesWritten before

/-- The variables with what commands have stored in them. -/
def variablesAfter (store : NameMap Value) : List Turn → NameMap Value
  | [] => store
  | .stored name v :: before => (variablesAfter store before).put name v
  | _ :: before => variablesAfter store before

/-- The turn is a setback for the command at `site`, after `before`, when just the commands `around` it are at
work. -/
inductive Turn.Stops (before : List Turn) (site : Site) (around : List Site) : Turn → Prop where
  | refused (h : commandsAtWork before = around) : Stops before site around (.refused site)
  | failed (h : commandsAtWork before = site :: around) : Stops before site around (.failed site)

theorem Fault.within_of_placed {source text : String} {span place : Span} (f : Fault)
    (hsource : f.source = some text) (hspan : f.span = some place) : f.within source span = f := by
  obtain ⟨cause, _, _, trace⟩ := f
  cases hsource
  cases hspan
  rfl

/-! ### Runs so far -/

variable {s : Session} {source : String} {around : List Site} {r : Running} {site : Site}

/-- In a run that began in the session `s` there was no setback yet, and the commands `around` are at work. -/
structure Smooth (s : Session) (around : List Site) (r : Running) : Prop where
  faults : r.session.faults = []
  journal : ∀ t ∈ r.journal, t.isSetback = false
  atWork : commandsAtWork r.journal = around
  output : r.session.output = s.output ++ (linesWritten r.journal).toArray
  store : r.session.store = variablesAfter s.store r.journal

/-- In a run of `source` that began in `s`, a command had the setback `last` after `before`.  Since then only the
commands `inner`, between it and those `around`, have failed, and all that is reported is the fault. -/
structure HaltedBy (s : Session) (source : String) (around : List Site) (r : Running) (fault : Fault)
    (site : Site) (last : Turn) (inner : List Site) (before : List Turn) : Prop where
  faults : r.session.faults = [fault]
  fits : site.span.Fits source
  source : fault.source = some source
  span : fault.span = some site.span
  journal : r.journal = (inner.map Turn.failed).reverse ++ last :: before
  stops : last.Stops before site (inner ++ around)
  smooth : ∀ t ∈ before, t.isSetback = false
  output : r.session.output = s.output ++ (linesWritten before).toArray
  store : r.session.store = variablesAfter s.store before

/-- The run has had a setback inside the commands `around`. -/
def Halted (s : Session) (source : String) (around : List Site) (r : Running) : Prop :=
  ∃ fault site last inner before, HaltedBy s source around r fault site last inner before

/-- How a command at work may fail: of itself, or because a block has halted. -/
def FailsBy (s : Session) (source : String) (around : List Site) : Failure → Running → Prop
  | .reported, r => Halted s source around r
  | f, r => f.IsOwn ∧ Smooth s around r

/-- With a result the run is smooth, without one it has halted. -/
def SmoothOrHalted (s : Session) (source : String) (around : List Site) : Option Value → Running → Prop
  | some _, r => Smooth s around r
  | none, r => Halted s source around r

/-- The state with its faults placed in a source where they have no place of their own. -/
def Running.placed (source : String) (span : Span) (r : Running) : Running :=
  { r with session := { r.session with faults := r.session.faults.map (·.within source span) } }

/-- With a result the run is smooth; without one there are faults, and once they are placed it has halted. -/
def SmoothOrFailed (s : Session) (source : String) (around : List Site) (span : Span) :
    Option Value → Running → Prop
  | some _, r => Smooth s around r
  | none, r => r.session.faults ≠ [] ∧ Halted s source around (r.placed source span)

namespace Smooth

theorem start (h : s.faults = []) (verdicts : List ((Nat × String) × Verdict)) :
    Smooth s [] { session := s, verdicts } := by
  refine ⟨h, fun t ht => (List.not_mem_nil ht).elim, rfl, ?_, rfl⟩
  simp [linesWritten]

theorem started (h : Smooth s around r) (site : Site) (v : Value) :
    Smooth s (site :: around) { r with journal := .started site v :: r.journal } where
  faults := h.faults
  journal := List.forall_mem_cons.mpr ⟨rfl, h.journal⟩
  atWork := by rw [commandsAtWork, h.atWork]
  output := h.output
  store := h.store

theorem returned (h : Smooth s (site :: around) r) (v : Value) :
    Smooth s around { r with journal := .returned site v :: r.journal } where
  faults := h.faults
  journal := List.forall_mem_cons.mpr ⟨rfl, h.journal⟩
  atWork := by rw [commandsAtWork, h.atWork, List.tail_cons]
  output := h.output
  store := h.store

theorem wrote (h : Smooth s around r) (line : String) :
    Smooth s around { r with session := r.session.writeLine line, journal := .wrote line :: r.journal } where
  faults := h.faults
  journal := List.forall_mem_cons.mpr ⟨rfl, h.journal⟩
  atWork := h.atWork
  output := by
    have hline : (r.session.writeLine line).output = r.session.output.push line := rfl
    rw [hline, h.output, linesWritten]
    simp
  store := h.store

theorem stored (h : Smooth s around r) (name : String) (v : Value) :
    Smooth s around
      { r with session := r.session.setVariable name v, journal := .stored name v :: r.journal } where
  faults := h.faults
  journal := List.forall_mem_cons.mpr ⟨rfl, h.journal⟩
  atWork := h.atWork
  output := h.output
  store := by
    have hstore : (r.session.setVariable name v).store = r.session.store.put name v := rfl
    rw [hstore, h.store, variablesAfter]

/-- Where all is smooth, one fault without a place of its own stops the command that reports it. -/
theorem halts (h : Smooth s around r) (f : Fault) (hsource : f.source = none) (hspan : f.span = none)
    (hfits : site.span.Fits source) {last : Turn} {outer : List Site} (hstops : last.Stops r.journal site outer) :
    Halted s source outer
      (Running.placed source site.span
        { r with session := r.session.report f, journal := last :: r.journal }) := by
  refine ⟨f.within source site.span, site, last, [], r.journal, ?_⟩
  refine ⟨?_, hfits, ?_, ?_, rfl, hstops, h.journal, h.output, h.store⟩
  · simp [Running.placed, Session.report, h.faults]
  · simp [Fault.within, hsource]
  · simp [Fault.within, hspan]

end Smooth

theorem governs_smooth : Governs (Smooth s around) (FailsBy s source around) where
  wrote _ line h := h.wrote line
  stored _ name v h := h.stored name v
  fails f r hf h := by
    cases f with
    | reported => exact hf.elim
    | _ => exact ⟨hf, h⟩

/-- When a run has halted inside a command, this command fails too. -/
theorem Halted.failed (h : Halted s source (site :: around) r) (span : Span) :
    Halted s source around (Running.placed source span { r with journal := .failed site :: r.journal }) := by
  obtain ⟨fault, stopped, last, inner, before, h⟩ := h
  have hplaced : fault.within source span = fault := fault.within_of_placed h.source h.span
  refine ⟨fault, stopped, last, inner ++ [site], before, ?_⟩
  refine ⟨?_, h.fits, h.source, h.span, ?_, ?_, h.smooth, h.output, h.store⟩
  · simp [Running.placed, h.faults, hplaced]
  · simp [Running.placed, h.journal]
  · rw [List.append_assoc]
    exact h.stops

/-! ### Steps -/

namespace Run

theorem checked_none {fullName : String} {span : Span} (h : r.session.faults ≠ []) :
    (checked source fullName span none).run r = (none, r.placed source span) := by
  have hfaults : r.session.faults.isEmpty = false := by simpa using h
  unfold checked
  simp only [StateT.run_bind, StateT.run_get, pure_bind, hfaults, Bool.false_eq_true, if_false]
  rfl

theorem leads_checked {fullName : String} {span : Span} (v : Option Value) :
    Leads (SmoothOrFailed s source around span v) (checked source fullName span v)
      (SmoothOrHalted s source around) := by
  intro r h
  cases v with
  | none =>
    rw [checked_none h.1]
    exact h.2
  | some v =>
    rw [checked_some (Smooth.faults h)]
    exact h

/-- What an implementation comes to is the end of its command. -/
theorem leads_settle {t : Step} {x : Eval Value} (hfits : t.span.Fits source)
    (hx : x.Keeps (Smooth s (t.site :: around)) (FailsBy s source (t.site :: around)) fun _ => True) :
    Leads (Smooth s (t.site :: around)) (settle x) fun result r =>
      SmoothOrFailed s source around t.span result { r with journal := t.ending result :: r.journal } := by
  refine Leads.bind hx fun outcome => ?_
  -- a failure of the command's own is reported without a place
  have hown : ∀ f : Fault, f.source = none → f.span = none →
      Leads (Smooth s (t.site :: around)) (report f >>= fun _ => pure (none : Option Value)) fun result r =>
        SmoothOrFailed s source around t.span result { r with journal := t.ending result :: r.journal } := by
    intro f hsource hspan r h
    have hhalted : Halted s source around (Running.placed source t.span
        { r with session := r.session.report f, journal := .failed t.site :: r.journal }) :=
      h.halts f hsource hspan hfits (.failed h.atWork)
    exact ⟨List.append_ne_nil_of_right_ne_nil _ (List.cons_ne_nil _ _), hhalted⟩
  cases outcome with
  | ok v => exact fun r h => h.1.returned v
  | error f =>
    cases f with
    | reported =>
      intro r h
      have hfaults : r.session.faults ≠ [] := by
        obtain ⟨fault, stopped, last, inner, before, h⟩ := h
        rw [h.faults]
        exact List.cons_ne_nil _ _
      exact ⟨hfaults, Halted.failed h t.span⟩
    | fault f => exact fun r h => hown f h.1.1 h.1.2 r h.2
    | raised message causes => exact fun r h => hown _ rfl rfl r h.2
    | panicked message => exact fun r h => hown _ rfl rfl r h.2

theorem leads_asBlock {run : Run (Option Value)}
    (h : Leads (Smooth s around) run (SmoothOrHalted s source around)) :
    (asBlock run).Keeps (Smooth s around) (FailsBy s source around) fun _ => True := by
  refine Eval.Keeps.asBlock (Leads.mono h fun v r hr => ?_)
  cases v with
  | none => exact hr
  | some v => exact ⟨hr, trivial⟩

end Run

/-! ### Pipelines -/

theorem argumentsFrom.blocks {arguments : List Argument} (h : argumentsFrom source arguments) :
    ∀ a ∈ arguments, ∀ p ∈ a.pipeline?, p.From source := by
  induction arguments with
  | nil => exact fun _ ha => (List.not_mem_nil ha).elim
  | cons a rest ih =>
    refine List.forall_mem_cons.mpr ⟨fun p hp => ?_, ih h.2⟩
    cases a <;> cases hp <;> exact h.1

theorem argumentsWithin.blocks {text : List Char} {low high : Nat} {arguments : List Argument}
    (h : argumentsWithin text low high arguments) : ∀ a ∈ arguments, ∀ p ∈ a.pipeline?, p.Within text low high := by
  induction arguments with
  | nil => exact fun _ ha => (List.not_mem_nil ha).elim
  | cons a rest ih =>
    refine List.forall_mem_cons.mpr ⟨fun p hp => ?_, ih h.2⟩
    cases a <;> cases hp <;> exact h.1

/-- A step stands at whole characters of its source. -/
theorem InOrder.fits {low high : Nat} {t : Step} {rest : List Step}
    (h : InOrder source.toList low high (t :: rest)) : t.span.Fits source := by
  obtain ⟨-, hlt, hslice, -⟩ := h
  have hcut : (Text.splitAt? t.span.start source.toList).isSome := by
    unfold Text.slice? at hslice
    cases hsplit : Text.splitAt? t.span.start source.toList with
    | none =>
      rw [hsplit] at hslice
      cases hslice
    | some parts => rfl
  obtain ⟨⟨before, behind⟩, hsplit⟩ := Option.isSome_iff_exists.mp hcut
  obtain ⟨hsource, hsize⟩ := Text.splitAt?_eq_some hsplit
  refine ⟨Nat.le_of_lt hlt, ?_, hcut⟩
  rw [hsource, Text.size_append, hsize]
  exact Nat.le_add_right _ _

variable {d : Directory} {listing : List String}

/-- A step that starts smoothly comes to its end smoothly, or it stops the run at its own place. -/
theorem Step.smooth_run {t : Step} {v : Value} (hfits : t.span.Fits source)
    (hcall : (t.signature.run (t.call listing v)).Keeps (Smooth s (t.site :: around))
      (FailsBy s source (t.site :: around)) fun _ => True) :
    Run.Leads (Smooth s around) (t.run listing v) (SmoothOrFailed s source around t.span) := by
  have hpermits : Run.Keeps (Smooth s around) (Run.permits t.span.start t.name) fun _ => True :=
    Run.keeps_permits fun r _ h => ⟨h.faults, h.journal, h.atWork, h.output, h.store⟩
  refine t.leads_run hpermits (fun r h => ⟨?_, ?_⟩) (fun r h => h.1.started t.site v) (Run.leads_settle hfits hcall)
  · exact List.append_ne_nil_of_right_ne_nil _ (List.cons_ne_nil _ _)
  · have hstops : (Turn.refused t.site).Stops r.journal t.site around := .refused h.1.atWork
    exact h.1.halts { cause := .noPermission t.fullName } rfl rfl hfits hstops

/-- A typed pipeline of commands that fail of themselves or by a block of theirs runs smoothly, or it halts. -/
theorem smooth_induction (hd : d.Conducts) : TypedInduction d
    (fun p => p.From source → ∀ low high, p.Within source.toList low high → ∀ around input,
      Run.Leads (Smooth s around) (p.runNested listing input) (SmoothOrHalted s source around))
    fun t => t.From source → t.span.Fits source → t.Nested source.toList → ∀ around v,
      Run.Leads (Smooth s around) (t.run listing v) (SmoothOrFailed s source around t.span) where
  done _ _ _ _ _ _ _ _ _ _ := fun _ h => h
  next t rest text piped returns ht _ hrest hfrom low high hwithin around input := by
    obtain ⟨rfl, htFrom, hrestFrom⟩ := hfrom
    obtain ⟨horder, htNested, hrestNested⟩ := hwithin
    refine Pipeline.leads_runNested_cons (ht htFrom horder.fits htNested around _) Run.leads_checked (fun w => ?_)
      fun _ h => h
    exact hrest ⟨rfl, hrestFrom⟩ _ _ ⟨horder.2.2.2, hrestNested⟩ around (some w)
  step t ht hblocks hfrom hfits hnested around v := by
    refine Step.smooth_run hfits (hd.keeps_call ht governs_smooth (fun a ha p hp input => ?_) v)
    cases t
    exact Run.leads_asBlock (hblocks a ha p hp (argumentsFrom.blocks hfrom a ha p hp) _ _
      (argumentsWithin.blocks hnested a ha p hp) _ input)

/-- A run that begins without faults is smooth to its end, or it halts and writes its fault out. -/
theorem Pipeline.run_smooth (hd : d.Conducts) {p : Pipeline} (hp : p.Typed d) (hfrom : p.From source)
    {low high : Nat} (hwithin : p.Within source.toList low high) {input : Option Value} {v : Option Value}
    {verdicts : List ((Nat × String) × Verdict)}
    (hfaults : s.faults = []) (hrun : (p.run listing input).run { session := s, verdicts } = (v, r)) :
    (∃ w, v = some w) ∧ Smooth s [] r ∨
      v = none ∧ ∃ r', Halted s source [] r' ∧ r = { r' with session :=
        { r'.session with output := r'.session.output ++ (r'.session.faults.map Fault.rendered).toArray } } := by
  have hleads : Run.Leads (Smooth s []) (p.runNested listing input) (SmoothOrHalted s source []) :=
    (smooth_induction hd).pipeline p hp hfrom low high hwithin [] input
  have hend := hleads _ (Smooth.start hfaults verdicts)
  cases hsteps : (p.runNested listing input).run { session := s, verdicts } with
  | mk w r' =>
    rw [hsteps] at hend
    cases w with
    | some w =>
      rw [Pipeline.run_some hfaults hsteps] at hrun
      obtain ⟨rfl, rfl⟩ := Prod.mk.inj hrun
      exact .inl ⟨⟨w, rfl⟩, hend⟩
    | none =>
      rw [Pipeline.run_none hfaults hsteps] at hrun
      obtain ⟨rfl, rfl⟩ := Prod.mk.inj hrun
      exact .inr ⟨rfl, r', hend, rfl⟩

/-- A run that fails stops at once and reports once.  Take an expression of built-in commands that can be read for
an input and the variables of a session without faults.  Evaluating it has no value just if the session holds
faults afterwards.  Then it holds one, which points at the innermost command at work in the whole text.  Behind
the setback of this command the journal has nothing but that the commands around it fail.  The lines are those
written before and the fault, and the variables are as they were before. -/
theorem failed_runs_stop_and_report_once {newlineEnds : Bool} {source : String} {input : Option Value}
    {s : Session} {p : Pipeline} {v : Option Value} {r : Running}
    (hread : (Directory.builtinWith newlineEnds).read source (input.map Value.type) s.variableTypes = .ok p)
    (hfaults : s.faults = [])
    (hrun : (p.run (Directory.builtinWith newlineEnds).listing input).run { session := s } = (v, r)) :
    (Directory.builtinWith newlineEnds).evaluate source input s = (v, r.session) ∧
      (v = none ↔ r.session.faults ≠ []) ∧
      (v = none → ∃ fault site last around before,
        r.session.faults = [fault] ∧ fault.source = some source ∧ fault.span = some site.span ∧
        r.journal = (around.map Turn.failed).reverse ++ last :: before ∧ last.Stops before site around ∧
        (∀ t ∈ before, t.isSetback = false) ∧
        r.session.output = s.output ++ (linesWritten before).toArray ++ #[fault.rendered] ∧
        r.session.store = variablesAfter s.store before) := by
  have hevaluate : (Directory.builtinWith newlineEnds).evaluate source input s = (v, r.session) := by
    unfold Directory.evaluate
    rw [hread]
    simp only [Program.run, hrun]
  refine ⟨hevaluate, ?_⟩
  have hend := Pipeline.run_smooth conducts_builtin (Directory.read_typed hread).1 (Directory.read_from hread)
    (Directory.within_of_read hread) hfaults hrun
  obtain ⟨⟨w, rfl⟩, hsmooth⟩ | ⟨rfl, r', ⟨fault, site, last, around, before, h⟩, rfl⟩ := hend
  · refine ⟨⟨fun hnone => ?_, fun hne => absurd hsmooth.faults hne⟩, fun hnone => ?_⟩
    · cases hnone
    · cases hnone
  · have hstops : last.Stops before site around := by simpa using h.stops
    refine ⟨⟨fun _ => ?_, fun _ => rfl⟩, fun _ => ⟨fault, site, last, around, before, h.faults, h.source, h.span,
      h.journal, hstops, h.smooth, ?_, h.store⟩⟩
    · rw [h.faults]
      exact List.cons_ne_nil _ _
    · rw [h.faults, h.output]
      rfl

/-- A division by zero, two blocks deep: the first item stops the run. -/
theorem failed_run_in_nested_blocks :
    ∃ p v r, (Directory.builtinWith false).read "=> $n | map { + { echo hi; i 1 | / 0 } }"
        ((some (.list [.int 5, .int 9])).map Value.type) (Session.variableTypes {}) = .ok p ∧
      ({} : Session).faults = [] ∧
      (p.run (Directory.builtinWith false).listing (some (.list [.int 5, .int 9]))).run { session := {} } = (v, r) ∧
      v.isNone ∧ r.session.output.size = 2 ∧ r.session.output[0]? = some "hi" ∧
      r.session.faults.map (·.span) = [some (.between 33 36)] ∧ (r.session.store.get? "n").isSome ∧
      ∃ fault site last around before,
        r.session.faults = [fault] ∧
        fault.source = some "=> $n | map { + { echo hi; i 1 | / 0 } }" ∧ fault.span = some site.span ∧
        r.journal = (around.map Turn.failed).reverse ++ last :: before ∧ last.Stops before site around ∧
        (∀ t ∈ before, t.isSetback = false) ∧
        r.session.output = #[] ++ (linesWritten before).toArray ++ #[fault.rendered] ∧
        r.session.store = variablesAfter .empty before := by
  have hchecked : ((Directory.builtinWith false).read "=> $n | map { + { echo hi; i 1 | / 0 } }"
      ((some (.list [.int 5, .int 9])).map Value.type) (Session.variableTypes {})).toOption.any (fun p =>
        let final := (p.run (Directory.builtinWith false).listing (some (.list [.int 5, .int 9]))).run
          { session := {} }
        final.1.isNone && decide (final.2.session.output.size = 2) &&
          decide (final.2.session.output[0]? = some "hi") &&
          decide (final.2.session.faults.map (·.span) = [some (.between 33 36)]) &&
          (final.2.session.store.get? "n").isSome) = true := by decide +kernel
  cases hread : (Directory.builtinWith false).read "=> $n | map { + { echo hi; i 1 | / 0 } }"
      ((some (.list [.int 5, .int 9])).map Value.type) (Session.variableTypes {}) with
  | error fault =>
    rw [hread] at hchecked
    cases hchecked
  | ok p =>
    rw [hread] at hchecked
    cases hrun : (p.run (Directory.builtinWith false).listing (some (.list [.int 5, .int 9]))).run
        { session := {} } with
    | mk v r =>
      simp only [Except.toOption, Option.any_some, hrun, Bool.and_eq_true, decide_eq_true_eq] at hchecked
      obtain ⟨⟨⟨⟨hnone, hsize⟩, hline⟩, hspan⟩, hstored⟩ := hchecked
      obtain ⟨-, -, hstops⟩ := failed_runs_stop_and_report_once hread rfl hrun
      exact ⟨p, v, r, rfl, rfl, hrun, hnone, hsize, hline, hspan, hstored,
        hstops (Option.isNone_iff_eq_none.mp hnone)⟩

end KeyConsole.Console
