import KeyConsole.Proofs.Console.SourceText

/-!
# Proofs.Console.PipelineParts: the source of a pipeline, and the steps in it

A pipeline can be given another source text, with the blocks in it, and is the same pipeline otherwise.  A property
of steps holds somewhere in a pipeline if a step of it or of a block in it has the property.
-/

namespace KeyConsole.Console

open Text (size)

/-! ### Pipelines with another source -/

mutual

/-- The pipeline with another source text, and so the blocks in it. -/
def Pipeline.resourced (source : String) : Pipeline → Pipeline
  | ⟨steps, _, piped, returns⟩ => ⟨stepsResourced source steps, source, piped, returns⟩

/-- The steps with another source text for their blocks. -/
def stepsResourced (source : String) : List Step → List Step
  | [] => []
  | s :: rest => s.resourced source :: stepsResourced source rest

/-- The step with another source text for its blocks. -/
def Step.resourced (source : String) : Step → Step
  | ⟨name, subcommand, inverted, piped, types, arguments, signature, returns, span⟩ =>
    ⟨name, subcommand, inverted, piped, types, argumentsResourced source arguments, signature, returns, span⟩

/-- The arguments with another source text for their blocks. -/
def argumentsResourced (source : String) : List Argument → List Argument
  | [] => []
  | a :: rest => a.resourced source :: argumentsResourced source rest

/-- The argument with another source text for the block that it may be. -/
def Argument.resourced (source : String) : Argument → Argument
  | .valueBlock p => .valueBlock (p.resourced source)
  | .block p => .block (p.resourced source)
  | a => a

end

variable {source : String}

@[simp] theorem Pipeline.returns_resourced (p : Pipeline) : (p.resourced source).returns = p.returns := by
  cases p
  rfl

@[simp] theorem Step.returns_resourced (s : Step) : (s.resourced source).returns = s.returns := by
  cases s
  rfl

theorem stepsResourced_eq_map (ss : List Step) : stepsResourced source ss = ss.map (Step.resourced source) := by
  induction ss with
  | nil => rfl
  | cons s rest ih => exact congrArg (s.resourced source :: ·) ih

mutual

/-- A pipeline that has the source already stays as it is. -/
theorem Pipeline.resourced_of_from {p : Pipeline} (h : p.From source) : p.resourced source = p := by
  match p with
  | ⟨_, _, _, _⟩ =>
    obtain ⟨hsource, hsteps⟩ := h
    have hsame := stepsResourced_of_from hsteps
    rw [Pipeline.resourced, hsame, hsource]

theorem stepsResourced_of_from {ss : List Step} (h : stepsFrom source ss) : stepsResourced source ss = ss := by
  match ss with
  | [] => rfl
  | s :: rest =>
    have hs := Step.resourced_of_from h.1
    have hrest := stepsResourced_of_from h.2
    rw [stepsResourced, hs, hrest]

theorem Step.resourced_of_from {s : Step} (h : s.From source) : s.resourced source = s := by
  match s with
  | ⟨_, _, _, _, _, _, _, _, _⟩ =>
    have hsame := argumentsResourced_of_from h
    rw [Step.resourced, hsame]

theorem argumentsResourced_of_from {as : List Argument} (h : argumentsFrom source as) :
    argumentsResourced source as = as := by
  match as with
  | [] => rfl
  | a :: rest =>
    have ha := Argument.resourced_of_from h.1
    have hrest := argumentsResourced_of_from h.2
    rw [argumentsResourced, ha, hrest]

theorem Argument.resourced_of_from {a : Argument} (h : a.From source) : a.resourced source = a := by
  match a with
  | .valueBlock p => exact congrArg Argument.valueBlock (Pipeline.resourced_of_from h)
  | .block p => exact congrArg Argument.block (Pipeline.resourced_of_from h)
  | .literal _ => rfl
  | .read _ _ => rfl
  | .variable _ => rfl

end

/-! ### Steps at any depth -/

mutual

/-- Some step of the pipeline or of a block in it has the property. -/
def Pipeline.Has (P : Step → Prop) : Pipeline → Prop
  | ⟨steps, _, _, _⟩ => stepsHave P steps

/-- One of the steps, or a step of a block in them, has the property. -/
def stepsHave (P : Step → Prop) : List Step → Prop
  | [] => False
  | s :: rest => s.Has P ∨ stepsHave P rest

/-- The step has the property, or a step of a block in it has. -/
def Step.Has (P : Step → Prop) : Step → Prop
  | ⟨name, subcommand, inverted, piped, types, arguments, signature, returns, span⟩ =>
    P ⟨name, subcommand, inverted, piped, types, arguments, signature, returns, span⟩ ∨ argumentsHave P arguments

/-- Some step of a block among the arguments has the property. -/
def argumentsHave (P : Step → Prop) : List Argument → Prop
  | [] => False
  | a :: rest => a.Has P ∨ argumentsHave P rest

/-- Some step of the block that the argument may be has the property. -/
def Argument.Has (P : Step → Prop) : Argument → Prop
  | .valueBlock p => p.Has P
  | .block p => p.Has P
  | _ => False

end

mutual

/-- A test of steps decides whether one in the pipeline passes it. -/
def Pipeline.decidableHas (P : Step → Prop) [DecidablePred P] : (p : Pipeline) → Decidable (p.Has P)
  | ⟨steps, _, _, _⟩ => decidableStepsHave P steps

/-- A test of steps decides whether one of these, or one in a block of theirs, passes it. -/
def decidableStepsHave (P : Step → Prop) [DecidablePred P] : (steps : List Step) → Decidable (stepsHave P steps)
  | [] => inferInstanceAs (Decidable False)
  | s :: rest =>
    have := s.decidableHas P
    have := decidableStepsHave P rest
    inferInstanceAs (Decidable (s.Has P ∨ stepsHave P rest))

/-- A test of steps decides whether this one, or one in a block of it, passes it. -/
def Step.decidableHas (P : Step → Prop) [DecidablePred P] : (s : Step) → Decidable (s.Has P)
  | ⟨name, subcommand, inverted, piped, types, arguments, signature, returns, span⟩ =>
    have := decidableArgumentsHave P arguments
    inferInstanceAs
      (Decidable (P ⟨name, subcommand, inverted, piped, types, arguments, signature, returns, span⟩ ∨
        argumentsHave P arguments))

/-- A test of steps decides whether one in a block among the arguments passes it. -/
def decidableArgumentsHave (P : Step → Prop) [DecidablePred P] :
    (arguments : List Argument) → Decidable (argumentsHave P arguments)
  | [] => inferInstanceAs (Decidable False)
  | a :: rest =>
    have := a.decidableHas P
    have := decidableArgumentsHave P rest
    inferInstanceAs (Decidable (a.Has P ∨ argumentsHave P rest))

/-- A test of steps decides whether one in the block that the argument may be passes it. -/
def Argument.decidableHas (P : Step → Prop) [DecidablePred P] : (a : Argument) → Decidable (a.Has P)
  | .valueBlock p => p.decidableHas P
  | .block p => p.decidableHas P
  | .literal _ => inferInstanceAs (Decidable False)
  | .read _ _ => inferInstanceAs (Decidable False)
  | .variable _ => inferInstanceAs (Decidable False)

end

instance (P : Step → Prop) [DecidablePred P] (p : Pipeline) : Decidable (p.Has P) := p.decidableHas P

/-- The text ends with the name of the step, which takes nothing behind it. -/
structure Step.Closes (source : String) (s : Step) : Prop where
  types : s.types = []
  parameters : s.signature.parameters = []
  stop : s.span.stop = size source.toList
  name : s.fullName.toList <:+ source.toList

end KeyConsole.Console
