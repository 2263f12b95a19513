import KeyConsole.Proofs.Console.GrammarRules
import KeyConsole.Proofs.Console.Holdings
import KeyConsole.Proofs.Console.Resolution

/-!
# Proofs.Console.Declarations: the variables that reading knows

While an expression is read, the types of its variables are kept in one table, which goes through the text from left
to right.  Behind what has been read the table is what the flow `Flow.table` makes of the table in front, and the
return type of every step is computed from the table where the step stands.
-/

namespace KeyConsole.Console

open Ordered (NameMap)

/-- An argument that no value is stored for leaves everything as it is known. -/
theorem Reading.Argument.Plain.flow_eq {σ : Type} {kind : ParameterKind} {a : Argument} (h : Plain kind a)
    (F : Flow σ) (piped : Option ValueType) (m : σ) : a.flow F piped kind m = m := by
  cases kind <;> cases a <;> first | exact h.elim | rfl

/-- What is kept beside some arguments that are read where some variables are known. -/
def Reading.Arguments.kept (piped : Option ValueType) :
    List Argument → List Parameter → NameMap ValueType → Reading.Arguments
  | a :: rest, p :: parameters, known =>
    let behind := a.flow Flow.table piped p.kind known
    (kept piped rest parameters behind).cons p piped behind a
  | _, _, _ => {}

/-- For one variable its type is kept, if it is known. -/
theorem Reading.Arguments.variableTypes_kept {piped : Option ValueType} {name target : String} {rest : List Argument}
    {known : NameMap ValueType} :
    (kept piped (.variable target :: rest) [⟨name, .variable⟩] known).variableTypes = [known.get? target] := by
  cases rest <;> rfl

/-- The signature is one of the command, and the return type is computed from the variables known in front of the
step. -/
def Step.Informed (d : Directory) (known : NameMap ValueType) (s : Step) : Prop :=
  ∃ c, d.get? s.name = some c ∧ s.signature ∈ c.signatures ∧
    let read := Reading.Arguments.kept s.piped s.arguments s.signature.parameters known
    s.returns = s.signature.returns.type
      { piped := s.piped, types := s.types, blocks := read.blocks, variableTypes := read.variableTypes }

namespace Reading

variable {d : Directory} {nested : BlockReading} {command : String} {piped : Option ValueType}

/-- Blocks are read as pipelines whose steps are informed, and the table follows them. -/
def InformsBlocks (d : Directory) (nested : BlockReading) : Prop :=
  ∀ c once piped target, Covers c (nested once piped target) fun _ p e =>
    e.known = p.flow Flow.table c.known ∧ p.Each Flow.table (Step.Informed d) c.known

namespace InformsBlocks

variable (hn : InformsBlocks d nested)

include hn

theorem informs_block (c : Cursor) (piped target : Option ValueType) :
    Covers c (block nested piped target) fun _ p e =>
      e.known = p.flow Flow.table c.known ∧ p.Each Flow.table (Step.Informed d) c.known := by
  refine covers_block_of (fun {before f} _ hf => ?_) fun {before f} _ hf => ?_
  · refine (hn (f.pushCloser '}') false piped target).mono fun inside p g _ h e _ he => ?_
    have hpushed : (f.pushCloser '}').known = c.known := hf
    rw [hpushed] at h
    exact ⟨he.trans h.1, h.2⟩
  · rw [← hf]
    exact hn f true piped target

theorem informs_argument (c : Cursor) (p : Parameter) :
    Covers c (argument nested command piped p) fun _ a e =>
      e.known = a.flow Flow.table piped p.kind c.known ∧ a.Each Flow.table (Step.Informed d) c.known := by
  refine covers_argument_of (fun {text e a} ha _ he => ?_) (fun {space b t} hkind _ hb => ?_)
    (fun {space b feed output} hkind _ hb => ?_) fun {text e name} hkind _ he => ?_
  · refine ⟨he.trans (ha.flow_eq _ _ _).symm, ?_⟩
    rcases ha.cases with ⟨v, rfl⟩ | ⟨name, t, rfl⟩ | ⟨name, rfl⟩ <;> trivial
  · rw [← hb]
    exact hn.informs_block b none (some t)
  · rw [← hb]
    exact hn.informs_block b (feed.type piped) output
  · rw [hkind]
    exact ⟨he, trivial⟩

theorem informs_arguments (c : Cursor) (ps : List Parameter) :
    Covers c (arguments nested command piped ps) fun _ r e =>
      r = Reading.Arguments.kept piped r.arguments ps c.known ∧
        e.known = argumentsFlow Flow.table piped r.arguments ps c.known ∧
          argumentsEach Flow.table (Step.Informed d) piped r.arguments ps c.known := by
  induction ps generalizing c with
  | nil => exact .pure ⟨rfl, rfl, trivial⟩
  | cons p ps ih =>
    refine Covers.bind (hn.informs_argument c p) fun _ a e _ ha => Covers.look ?_
    obtain ⟨hknown, hsteps⟩ := ha
    refine Covers.bind (ih e) fun _ rest f _ h => .pure ?_
    obtain ⟨hrest, hbehind, hothers⟩ := h
    rw [Arguments.arguments_cons, hknown]
    rw [hknown] at hrest hbehind hothers
    exact ⟨congrArg (Arguments.cons p piped _ a) hrest, hbehind, hsteps, hothers⟩

theorem informs_command (c : Cursor) (start : Nat) :
    Covers c (Reading.command d nested piped start) fun _ s e =>
      e.known = s.flow Flow.table c.known ∧ s.Each Flow.table (Step.Informed d) c.known := by
  refine covers_command_of fun {text e name registered sub inverted types signature} _ _ he hregistered hs => ?_
  refine (hn.informs_arguments e signature.parameters).mono fun _ read f _ h => ?_
  rw [he] at h
  obtain ⟨hkept, hknown, hsteps⟩ := h
  refine ⟨hknown, ⟨registered, hregistered, (Command.resolve?_spec hs).1, ?_⟩, hsteps⟩
  dsimp only
  rw [← hkept]

theorem informs_commands (c : Cursor) (once : Bool) (piped : Option ValueType) :
    Covers c (Reading.commands d nested once piped) fun _ r e =>
      (e.known = stepsFlow Flow.table r.steps c.known ∧ stepsEach Flow.table (Step.Informed d) r.steps c.known) ∧
        (once = false → e.atCloser ∨ e.atEnd) := by
  refine covers_commands_of (I := fun _ => True) (R := fun c _ steps e =>
      e.known = stepsFlow Flow.table steps c.known ∧ stepsEach Flow.table (Step.Informed d) steps c.known)
    (fun _ _ => trivial) (fun {c _} _ => hn.informs_command c c.offset) ?_ ?_ trivial once piped
  · rintro c e f word gap s - ⟨hknown, hstep⟩ - - hf
    exact ⟨hf.trans hknown, hstep, trivial⟩
  · rintro c e f g word gap more s rest - ⟨hknown, hstep⟩ - - hf hrest
    rw [hf.trans hknown] at hrest
    exact ⟨hrest.1, hstep, hrest.2⟩

theorem pipeline : InformsBlocks d (pipeline d nested) := by
  intro c once piped target
  refine covers_pipeline_of fun {space b} _ _ hb => ?_
  refine (hn.informs_commands b once piped).mono fun text read e _ h returns => ?_
  rw [hb] at h
  exact h.1

end InformsBlocks

theorem informsBlocks_readNested (depth : Nat) : InformsBlocks d (readNested d depth) := by
  induction depth with
  | zero => exact fun _ _ _ _ => .failure
  | succ depth ih => exact ih.pipeline

end Reading

open Reading

/-- Every step of an expression that has been read is informed by the table that reading keeps. -/
theorem Directory.read_informed {d : Directory} {source : String} {piped : Option ValueType}
    {known : NameMap ValueType} {p : Pipeline} (h : d.read source piped known = .ok p) :
    p.Each Flow.table (Step.Informed d) known := by
  unfold Directory.read at h
  split at h
  · rename_i q e hq
    cases h
    have hwhole : Covers (d.cursor source known) (whole d piped) fun _ p e =>
        e.known = p.flow Flow.table known ∧ p.Each Flow.table (Step.Informed d) known :=
      Covers.look (informsBlocks_readNested _ _ false piped none)
    obtain ⟨-, -, -, hsteps⟩ := hwhole p (congrArg Prod.fst hq)
    exact hsteps
  · cases h

end KeyConsole.Console
