import KeyConsole.Proofs.Console.Resolution
import KeyConsole.Proofs.Console.RunInduction
import KeyConsole.Proofs.Console.SoundBuiltins

/-!
# Proofs.Console.WellTypedRuns: runs that have been checked do not go wrong

A typed pipeline all of whose commands can be trusted keeps the state clean: no fault comes from a value of a wrong
type, and every command that returns does so with a value of the type it was read with.  A command can be trusted if
it is sound, or if it reads a variable that only holds values of the type promised.  This is an induction over the
syntax; that a step gets a value of the type piped to it is what each step hands on to the next, and so are the types
that the variables may hold.
-/

namespace KeyConsole.Console

open ValueType (AdmitsPiped)

/-! ### The commands of a pipeline -/

mutual

/-- A command of this name stands in the pipeline, at whatever depth. -/
def Pipeline.mentions (name : String) : Pipeline → Bool
  | ⟨steps, _, _, _⟩ => stepsMention name steps

/-- A command of this name stands in one of the steps. -/
def stepsMention (name : String) : List Step → Bool
  | [] => false
  | s :: rest => s.mentions name || stepsMention name rest

/-- The step is of this name, or its arguments have a command that is. -/
def Step.mentions (name : String) : Step → Bool
  | ⟨own, _, _, _, _, arguments, _, _, _⟩ => own == name || argumentsMention name arguments

/-- A command of this name stands in one of the arguments. -/
def argumentsMention (name : String) : List Argument → Bool
  | [] => false
  | a :: rest => a.mentions name || argumentsMention name rest

/-- A command of this name stands in a block. -/
def Argument.mentions (name : String) : Argument → Bool
  | .valueBlock p => p.mentions name
  | .block p => p.mentions name
  | _ => false

end

section

variable {σ : Type} {F : Flow σ} {P : σ → Step → Prop}

mutual

/-- What holds of every step with a name that is mentioned holds of each step. -/
theorem Pipeline.each_of_mentions : (p : Pipeline) → (∀ m s, p.mentions s.name → P m s) → ∀ m, p.Each F P m
  | ⟨steps, _, _, _⟩, h, m => stepsEach_of_mentions steps h m

theorem stepsEach_of_mentions : (steps : List Step) → (∀ m s, stepsMention s.name steps → P m s) → ∀ m,
    stepsEach F P steps m
  | [], _, _ => trivial
  | s :: rest, h, m => by
    refine ⟨s.each_of_mentions (fun m t ht => h m t ?_) m, stepsEach_of_mentions rest (fun m t ht => h m t ?_) _⟩
    · rw [stepsMention, ht, Bool.true_or]
    · rw [stepsMention, ht, Bool.or_true]

theorem Step.each_of_mentions : (s : Step) → (∀ m t, s.mentions t.name → P m t) → ∀ m, s.Each F P m
  | ⟨name, _, _, piped, _, arguments, signature, _, _⟩, h, m => by
    refine ⟨h m _ ?_, argumentsEach_of_mentions piped arguments (fun m t ht => h m t ?_) signature.parameters m⟩
    · simp [Step.mentions]
    · rw [Step.mentions, ht, Bool.or_true]

theorem argumentsEach_of_mentions (piped : Option ValueType) : (arguments : List Argument) →
    (∀ m s, argumentsMention s.name arguments → P m s) → ∀ parameters m,
      argumentsEach F P piped arguments parameters m
  | [], _, _, _ => trivial
  | _ :: _, _, [], _ => trivial
  | a :: rest, h, p :: parameters, m => by
    refine ⟨a.each_of_mentions (fun m t ht => h m t ?_) m,
      argumentsEach_of_mentions piped rest (fun m t ht => h m t ?_) parameters _⟩
    · rw [argumentsMention, ht, Bool.true_or]
    · rw [argumentsMention, ht, Bool.or_true]

theorem Argument.each_of_mentions : (a : Argument) → (∀ m s, a.mentions s.name → P m s) → ∀ m, a.Each F P m
  | .valueBlock p, h, m => p.each_of_mentions h m
  | .block p, h, m => p.each_of_mentions h (F.enter (p.flow F) m)
  | .literal _, _, _ => trivial
  | .read _ _, _, _ => trivial
  | .variable _, _, _ => trivial

end

end

/-! ### Steps of a run -/

variable {M N : Holdings}

namespace Run

/-- A failure that does not come from a wrong type leaves the state clean. -/
theorem safe_settle {x : Eval Value} {P : Value → Prop} (hx : x.Safe M N P) : (settle x).Safe M N P := by
  refine Leads.bind hx fun outcome r hr => ?_
  cases outcome with
  | ok v => exact hr
  | error f =>
    cases f with
    | reported => exact hr.2
    | fault f => exact hr.2.report hr.1
    | raised message causes => exact hr.2.report (f := { cause := .exception message, trace := _ }) hr.1
    | panicked message => exact hr.2.report (f := { cause := .exception message }) hr.1

theorem isMismatch_within (f : Fault) (source : String) (span : Span) :
    (f.within source span).isMismatch = f.isMismatch := rfl

/-- Placing the faults does not change what they are. -/
theorem safe_checked (source fullName : String) (span : Span) (v : Option Value) (P : Value → Prop) :
    Leads (fun r => v.elim (Clean r) fun w => Holding M r ∧ P w) (checked source fullName span v)
      fun v r => v.elim (Clean r) fun w => Holding M r ∧ P w := by
  have hclean : ∀ r, (v.elim (Clean r) fun w => Holding M r ∧ P w) → Clean r := by
    intro r hr
    cases v with
    | none => exact hr
    | some w => exact hr.1.toClean
  refine Leads.bind Keeps.get fun seen => ?_
  dsimp only
  split
  · exact fun r hr => hr.1
  · rintro r ⟨hr, hseen⟩
    refine ⟨fun f hf => ?_, (hclean r hr).returned⟩
    obtain ⟨g, hg, rfl⟩ := List.mem_map.mp hf
    rw [isMismatch_within]
    split at hg
    · rw [List.mem_singleton.mp hg]
      exact (((innocent_of_head (x := '\'') (by simp) (by decide)).append _).append _).message
    · exact (hclean seen hseen).faults g hg

end Run

/-! ### Commands that can be trusted -/

/-- The signature reads a variable, of whatever type. -/
def Signature.ReadsVariable (s : Signature) : Prop :=
  ∃ name, s.parameters = [⟨name, .variable⟩] ∧ ∀ c, s.run c = (do Call.readVariable (← c.variableName 0) .any)

/-- Where the variables may hold what `M` says, the command of the step is sound, or it reads a variable that may only
hold values of the type that the step was read with. -/
def Step.Trusted (d : Directory) (M : Holdings) (s : Step) : Prop :=
  ∀ c, d.get? s.name = some c → c.Sound ∨
    (∀ signature ∈ c.signatures, signature.ReadsVariable) ∧
      ∀ name ∈ s.variable?, s.returns = .any ∨ ∀ t ∈ M.types name, t.assignable s.returns

variable {d : Directory} {listing : List String}

/-- An argument for a variable names one. -/
theorem variable_of_argumentsTyped {arguments : List Argument} {name : String} {piped : Option ValueType}
    (h : argumentsTyped d arguments [⟨name, .variable⟩] piped) : ∃ target, arguments = [.variable target] := by
  cases arguments with
  | nil => exact h.elim
  | cons a rest =>
    obtain ⟨ha, hrest⟩ := h
    cases rest with
    | nil =>
      cases a <;> first | exact ha.elim | exact ⟨_, rfl⟩
    | cons => exact hrest.elim

/-- What is read from a variable is of the type promised, if all that the variable may hold is. -/
theorem Signature.ReadsVariable.safe {s : Signature} (hs : s.ReadsVariable) {c : Call} {target : String}
    (hc : c.arguments = [.variable target]) {t : ValueType}
    (ht : t = .any ∨ ∀ u ∈ M.types target, u.assignable t) : (s.run c).Safe M M t.Admits := by
  obtain ⟨name, -, hrun⟩ := hs
  rw [hrun, Call.variableName_eq (by rw [hc]; rfl), pure_bind]
  refine (Call.safe_readVariable_held target .any).mono (fun _ hr => hr) fun v hv => ?_
  obtain ⟨u, hu, hadmits⟩ := hv
  rcases ht with rfl | ht
  · trivial
  · exact hadmits.assignable (ht u hu)

/-! ### Well-typed runs -/

/-- On a value of the type piped to it, the pipeline comes from what the variables may hold in front of it to what they
may hold behind it. -/
def Pipeline.KeepsTypes (d : Directory) (listing : List String) (p : Pipeline) : Prop :=
  ∀ M, p.Each Holdings.flow (Step.Trusted d) M → ∀ input : Option Value, AdmitsPiped p.piped (input.getD .void) →
    (p.runNested listing input).Safe M (p.flow Holdings.flow M) p.returns.Admits

/-- The step does so. -/
def Step.KeepsTypes (d : Directory) (listing : List String) (s : Step) : Prop :=
  ∀ M, s.Each Holdings.flow (Step.Trusted d) M → ∀ v, AdmitsPiped s.piped v →
    (s.run listing v).Safe M (s.flow Holdings.flow M) s.returns.Admits

/-- Bound arguments are as the parameters promise them, if the blocks among them keep the types. -/
theorem fit_bindAll {arguments : List Argument} {parameters : List Parameter} {piped : Option ValueType}
    (harguments : argumentsTyped d arguments parameters piped)
    (hd : argumentsEach Holdings.flow (Step.Trusted d) piped arguments parameters M)
    (hblocks : ∀ a ∈ arguments, ∀ p ∈ a.pipeline?, p.KeepsTypes d listing) :
    ArgumentsFit piped (bindAll listing arguments) parameters (arguments.filterMap Argument.blockType?) M
      (argumentsFlow Holdings.flow piped arguments parameters M) := by
  induction arguments generalizing parameters M with
  | nil =>
    cases parameters with
    | nil => exact .nil
    | cons _ _ => exact harguments.elim
  | cons a rest ih =>
    cases parameters with
    | nil => exact harguments.elim
    | cons parameter parameters =>
      obtain ⟨name, kind⟩ := parameter
      obtain ⟨ha, hrest⟩ := harguments
      obtain ⟨hblock, hrestBlocks⟩ := List.forall_mem_cons.mp hblocks
      have hfit := ih hrest hd.2 hrestBlocks
      match a, kind with
      | .literal v, .value t => exact .value (Eval.Brings.pure ha) hfit
      | .read variableName u, .value t =>
        cases ha
        exact .value (Call.safe_readVariable variableName u) hfit
      | .valueBlock p, .value t =>
        obtain ⟨-, hpiped, hreturns⟩ := ha
        have hinput : AdmitsPiped p.piped ((none : Option Value).getD .void) := hpiped ▸ fun t ht => by cases ht
        have hrun := Eval.safe_asBlock (hblock p rfl M hd.1 none hinput)
        exact .value (Eval.Brings.mono hrun (fun _ hr => hr) fun w hw => hw.assignable hreturns) hfit
      | .block p, .block feed output =>
        obtain ⟨-, hpiped, hreturns⟩ := ha
        refine .block (Holdings.le_join_left M _) (fun input hinput => ?_) hreturns hfit
        -- the block may have been run before, and may be run again
        have hrun := Eval.safe_asBlock (hblock p rfl _ hd.1 input (hpiped ▸ hinput))
        exact Eval.Brings.mono hrun (fun _ hr => hr.mono (Holdings.flow_again p M)) fun _ hw => hw
      | .variable target, .assign => exact .assign hfit
      | .variable target, .variable => exact .variable hfit

/-- A step is called as its signature promises, or it reads a variable that can be trusted. -/
theorem Step.safe_call {s : Step} (hs : s.Typed d) (hd : s.Each Holdings.flow (Step.Trusted d) M)
    (hblocks : ∀ a ∈ s.arguments, ∀ p ∈ a.pipeline?, p.KeepsTypes d listing) {v : Value} (hv : AdmitsPiped s.piped v) :
    (s.signature.run (s.call listing v)).Safe M (s.flow Holdings.flow M) s.returns.Admits := by
  obtain ⟨name, subcommand, inverted, piped, types, arguments, signature, returns, span⟩ := s
  obtain ⟨harguments, c, variableTypes, hc, hsignature, rfl⟩ := hs
  obtain ⟨hmem, -, hcount, haccepts⟩ := Command.resolve?_spec hsignature
  have hfit := fit_bindAll harguments hd.2 hblocks
  let facts : TypeFacts :=
    { piped, types, blocks := arguments.filterMap Argument.blockType?, variableTypes }
  rcases hd.1 c hc with hsound | ⟨hreads, hheld⟩
  · exact hsound signature hmem facts _ M _ ⟨haccepts, hv, rfl, hcount.symm, hfit⟩
  · obtain ⟨parameter, hparameters, -⟩ := hreads signature hmem
    obtain ⟨target, rfl⟩ := variable_of_argumentsTyped (hparameters ▸ harguments)
    have hflow : Step.flow Holdings.flow ⟨name, subcommand, inverted, piped, types, [.variable target], signature,
        signature.returns.type facts, span⟩ M = M := by
      unfold Step.flow
      rw [hparameters]
      rfl
    rw [hflow]
    exact (hreads signature hmem).safe rfl (hheld target rfl)

/-- A step keeps the state clean if its implementation does. -/
theorem Step.safe_run {s : Step} {v : Value} (hcall : (s.signature.run (s.call listing v)).Safe M N s.returns.Admits) :
    (s.run listing v).Safe M N s.returns.Admits := by
  have hpermits : Run.Keeps (Holding M) (Run.permits s.span.start s.name) fun _ => True :=
    Run.keeps_permits fun r _ hr => ⟨⟨hr.faults, hr.returned⟩, hr.held⟩
  refine s.leads_run hpermits (fun r hr => ?_) (fun r hr => hr.1.enter fun site w h => by cases h)
    (Run.Leads.mono (Run.safe_settle hcall) fun result r hr => ?_)
  · exact (hr.1.toClean.enter fun site w h => by cases h).report rfl
  · cases result with
    | none => exact Clean.enter hr fun site w h => by cases h
    | some w =>
      obtain ⟨hr, hw⟩ := hr
      refine ⟨hr.enter fun site u h => ?_, hw⟩
      cases h
      exact hw

theorem keepsTypes_induction : TypedInduction d (Pipeline.KeepsTypes d listing) (Step.KeepsTypes d listing) where
  done source t returns hreturns M _ input hinput r hr := by
    refine ⟨hr, ?_⟩
    rcases hreturns with rfl | rfl
    · exact hinput _ rfl
    · trivial
  next s rest source piped returns hs hpiped hrest M hd input hinput := by
    refine Pipeline.leads_runNested_cons (hs M hd.1 _ hinput)
      (fun result => Run.safe_checked source s.fullName s.span result _) (fun w r hr => ?_) fun r hr => hr
    obtain ⟨hr, hw⟩ := hr
    refine hrest _ hd.2 (some w) (fun t ht => ?_) r hr
    rcases hpiped with rfl | rfl
    · cases ht
      exact hw
    · cases ht
  step s hs hblocks M hd v hv := Step.safe_run (Step.safe_call hs hd hblocks hv)

/-- A pipeline that runs without faults pending keeps the state clean, and comes to what the variables may hold behind
it if it has a value. -/
theorem Pipeline.safe_run_of_trusted {p : Pipeline} (hp : p.Typed d)
    (hd : p.Each Holdings.flow (Step.Trusted d) M) {input : Option Value}
    (hinput : AdmitsPiped p.piped (input.getD .void)) :
    (p.run listing input).Safe M (p.flow Holdings.flow M) p.returns.Admits := by
  have hsteps : (p.runNested listing input).Safe M _ _ := keepsTypes_induction.pipeline p hp M hd input hinput
  refine p.leads_run (fun r hr => hr.toClean.report rfl) ?_
  refine Run.Leads.mono (Run.Leads.of hsteps fun _ hr => hr.1) fun result r hr => ?_
  cases result with
  | some w => exact hr
  | none => exact ⟨hr.faults, hr.returned⟩

/-- A run of steps that can be trusted does not go wrong, with faults pending or without. -/
theorem Pipeline.run_of_trusted {p : Pipeline} {session : Session} {verdicts : List ((Nat × String) × Verdict)}
    {input v : Option Value} {r : Running} (hp : p.Typed d)
    (hd : p.Each Holdings.flow (Step.Trusted d) (.of session.variableTypes))
    (hinput : AdmitsPiped p.piped (input.getD .void)) (hrun : (p.run listing input).run { session, verdicts } = (v, r)) :
    (∀ f ∈ r.session.faults, f ∈ session.faults ∨ f.isMismatch = false) ∧
      (∀ site w, .returned site w ∈ r.journal → site.returns.Admits w) ∧ ∀ w ∈ v, p.returns.Admits w := by
  by_cases hfaults : session.faults = []
  · have hclean : Clean { session, verdicts } := by
      refine ⟨fun f hf => ?_, fun site w h => (List.not_mem_nil h).elim⟩
      rw [hfaults] at hf
      cases hf
    have hsafe : (p.run listing input).Safe _ _ _ := p.safe_run_of_trusted hp hd hinput
    have hend := Run.clean_of_safe hsafe hclean.holding
    rw [hrun] at hend
    exact ⟨fun f hf => Or.inr (hend.1.faults f hf), hend.1.returned, hend.2⟩
  · rw [Pipeline.run_pending hfaults] at hrun
    cases hrun
    refine ⟨fun f hf => ?_, fun site w h => (List.not_mem_nil h).elim, fun w hw => by cases hw⟩
    rcases List.mem_append.mp hf with hf | hf
    · exact Or.inl hf
    · rw [List.mem_singleton.mp hf]
      exact Or.inr rfl

/-- Every command of the directory that a test finds mentioned is sound. -/
def SoundWhere (d : Directory) (mentioned : String → Bool) : Prop :=
  ∀ name c, d.get? name = some c → mentioned name → c.Sound

/-- Sound commands can be trusted, whatever the variables hold. -/
theorem Pipeline.trusted_of_sound {p : Pipeline} (hd : SoundWhere d (p.mentions ·)) (M : Holdings) :
    p.Each Holdings.flow (Step.Trusted d) M :=
  p.each_of_mentions (fun _ s hs c hc => Or.inl (hd s.name c hc hs)) M

/-! ### Runs of the built-in commands -/

theorem soundWhere_builtin {newlineEnds : Bool} {mentioned : String → Bool} (h : mentioned "var" = false) :
    SoundWhere (Directory.builtinWith newlineEnds) mentioned := by
  intro name c hc hname
  obtain ⟨hmem, rfl⟩ := Directory.get?_builtin hc
  refine Builtin.sound_commands c hmem fun hvar => ?_
  rw [hvar, h] at hname
  cases hname

/-- Runs that have been checked do not go wrong.  Read a pipeline of built-in commands without `var` for the
type of an input, and run it on this input in any session, whatever permissions were looked up before.  Then
no new fault comes from a value of a wrong type, every command that returns does so with a value of the type
it was read with, and so does the pipeline. -/
theorem checked_runs_do_not_go_wrong {newlineEnds : Bool} {source : String} {input : Option Value}
    {known : Ordered.NameMap ValueType} {p : Pipeline} {listing : List String} {session : Session}
    {verdicts : List ((Nat × String) × Verdict)} {v : Option Value} {r : Running}
    (hread : (Directory.builtinWith newlineEnds).read source (input.map Value.type) known = .ok p)
    (hvar : p.mentions "var" = false)
    (hrun : (p.run listing input).run { session, verdicts } = (v, r)) :
    (∀ f ∈ r.session.faults, f ∈ session.faults ∨ f.isMismatch = false) ∧
      (∀ site w, .returned site w ∈ r.journal → site.returns.Admits w) ∧
      ∀ w ∈ v, p.returns.Admits w := by
  obtain ⟨hp, hpiped⟩ := Directory.read_typed hread
  have hinput : AdmitsPiped p.piped (input.getD .void) := hpiped ▸ ValueType.admitsPiped_type input
  exact p.run_of_trusted hp (p.trusted_of_sound (soundWhere_builtin hvar) _) hinput hrun

/-- A block for a list command, a block for an argument, and a `;`. -/
theorem checked_run_of_nested_blocks :
    ∃ p v r, (Directory.builtinWith false).read "map { + { i 2 } } | sum; i 7"
        ((some (.list [.int 5, .int 9])).map Value.type) {} = .ok p ∧ p.mentions "var" = false ∧
      (p.run [] (some (.list [.int 5, .int 9]))).run { session := {} } = (v, r) ∧
      v.bind Value.int? = some 7 ∧
      (∀ f ∈ r.session.faults, f ∈ ([] : List Fault) ∨ f.isMismatch = false) ∧
        (∀ site w, .returned site w ∈ r.journal → site.returns.Admits w) ∧
        ∀ w ∈ v, p.returns.Admits w := by
  have hchecked : ((Directory.builtinWith false).read "map { + { i 2 } } | sum; i 7"
      ((some (.list [.int 5, .int 9])).map Value.type) {}).toOption.any (fun p => !p.mentions "var" &&
        decide (((p.run [] (some (.list [.int 5, .int 9]))).run { session := {} }).1.bind Value.int? = some 7)) = true := by
    decide +kernel
  obtain ⟨p, hread, hp⟩ := exists_ok_of_any hchecked
  simp only [Bool.and_eq_true, Bool.not_eq_true', decide_eq_true_eq] at hp
  obtain ⟨hvar, hvalue⟩ := hp
  cases hrun : (p.run [] (some (.list [.int 5, .int 9]))).run { session := {} } with
  | mk v r =>
    rw [hrun] at hvalue
    exact ⟨p, v, r, hread, hvar, hrun, hvalue, checked_runs_do_not_go_wrong hread hvar hrun⟩

end KeyConsole.Console
