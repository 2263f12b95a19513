import KeyConsole.Console.Pipeline

/-!
# Proofs.Console.Flow: what is known about variables along a pipeline

A `Flow` says how some knowledge about the variables changes where a command stores one, and around a block that a
command runs as often as it likes.  A pipeline then takes knowledge in front of it to knowledge behind it, in the
order of the text, and every step in it stands at some knowledge.  Two flows are compared by a relation that their
rules preserve.
-/

namespace KeyConsole.Console

/-- The rules by which knowledge about variables changes. -/
structure Flow (σ : Type) where
  /-- A value of a type is stored in a variable. -/
  assign : String → ValueType → σ → σ
  /-- What is known where a block for a command begins, given what the block makes of knowledge. -/
  enter : (σ → σ) → σ → σ
  /-- What is known behind such a block. -/
  leave : (σ → σ) → σ → σ

variable {σ τ : Type}

/-! ### Knowledge behind a pipeline, and at its steps -/

section

variable (F : Flow σ)

mutual

/-- What is known behind the pipeline. -/
def Pipeline.flow : Pipeline → σ → σ
  | ⟨steps, _, _, _⟩, m => stepsFlow steps m

/-- What is known behind some steps. -/
def stepsFlow : List Step → σ → σ
  | [], m => m
  | s :: rest, m => stepsFlow rest (s.flow m)

/-- What is known behind the step. -/
def Step.flow : Step → σ → σ
  | ⟨_, _, _, piped, _, arguments, signature, _, _⟩, m => argumentsFlow piped arguments signature.parameters m

/-- What is known behind the arguments for some parameters of a command with a piped type. -/
def argumentsFlow (piped : Option ValueType) : List Argument → List Parameter → σ → σ
  | a :: rest, p :: parameters, m => argumentsFlow piped rest parameters (a.flow piped p.kind m)
  | _, _, m => m

/-- What is known behind the argument.  The block of a value runs once. -/
def Argument.flow : Argument → Option ValueType → ParameterKind → σ → σ
  | .valueBlock p, _, _, m => p.flow m
  | .block p, _, _, m => F.leave (fun m => p.flow m) m
  | .variable name, piped, .assign, m => F.assign name (piped.getD .any) m
  | _, _, _, m => m

end

variable (P : σ → Step → Prop)

mutual

/-- Every step of the pipeline and of the blocks in it has a property, given what is known where it stands. -/
def Pipeline.Each : Pipeline → σ → Prop
  | ⟨steps, _, _, _⟩, m => stepsEach steps m

/-- Every step and every step of the blocks in them has the property. -/
def stepsEach : List Step → σ → Prop
  | [], _ => True
  | s :: rest, m => s.Each m ∧ stepsEach rest (s.flow F m)

/-- The step and every step of the blocks in it has the property. -/
def Step.Each : Step → σ → Prop
  | ⟨name, subcommand, inverted, piped, types, arguments, signature, returns, span⟩, m =>
    P m ⟨name, subcommand, inverted, piped, types, arguments, signature, returns, span⟩ ∧
      argumentsEach piped arguments signature.parameters m

/-- Every step of the blocks among the arguments has the property. -/
def argumentsEach (piped : Option ValueType) : List Argument → List Parameter → σ → Prop
  | a :: rest, p :: parameters, m => a.Each m ∧ argumentsEach piped rest parameters (a.flow F piped p.kind m)
  | _, _, _ => True

/-- Every step of the block that the argument may be has the property. -/
def Argument.Each : Argument → σ → Prop
  | .valueBlock p, m => p.Each m
  | .block p, m => p.Each (F.enter (p.flow F) m)
  | _, _ => True

end

variable [hP : ∀ m s, Decidable (P m s)]

mutual

/-- Whether every step of the pipeline has the property. -/
def Pipeline.decideEach : (p : Pipeline) → (m : σ) → Decidable (p.Each F P m)
  | ⟨steps, _, _, _⟩, m => stepsDecideEach steps m

/-- Whether every step has the property. -/
def stepsDecideEach : (steps : List Step) → (m : σ) → Decidable (stepsEach F P steps m)
  | [], _ => isTrue trivial
  | s :: rest, m =>
    have : Decidable (s.Each F P m) := s.decideEach m
    have : Decidable (stepsEach F P rest (s.flow F m)) := stepsDecideEach rest _
    inferInstanceAs (Decidable (_ ∧ _))

/-- Whether the step and every step in it has the property. -/
def Step.decideEach : (s : Step) → (m : σ) → Decidable (s.Each F P m)
  | ⟨name, subcommand, inverted, piped, types, arguments, signature, returns, span⟩, m =>
    have : Decidable (argumentsEach F P piped arguments signature.parameters m) :=
      argumentsDecideEach piped arguments signature.parameters m
    have := hP m ⟨name, subcommand, inverted, piped, types, arguments, signature, returns, span⟩
    inferInstanceAs (Decidable (_ ∧ _))

/-- Whether every step of the blocks among the arguments has the property. -/
def argumentsDecideEach (piped : Option ValueType) : (arguments : List Argument) → (parameters : List Parameter) →
    (m : σ) → Decidable (argumentsEach F P piped arguments parameters m)
  | a :: rest, p :: parameters, m =>
    have : Decidable (a.Each F P m) := a.decideEach m
    have : Decidable (argumentsEach F P piped rest parameters (a.flow F piped p.kind m)) :=
      argumentsDecideEach piped rest parameters _
    inferInstanceAs (Decidable (_ ∧ _))
  | [], _, _ => isTrue trivial
  | _ :: _, [], _ => isTrue trivial

/-- Whether every step of the block that the argument may be has the property. -/
def Argument.decideEach : (a : Argument) → (m : σ) → Decidable (a.Each F P m)
  | .valueBlock p, m => p.decideEach m
  | .block p, m => p.decideEach (F.enter (p.flow F) m)
  | .literal _, _ => isTrue trivial
  | .read _ _, _ => isTrue trivial
  | .variable _, _ => isTrue trivial

end

instance (p : Pipeline) (m : σ) : Decidable (p.Each F P m) := p.decideEach F P m

end

/-! ### Flows compared -/

/-- What two flows know stays related by every rule. -/
structure Flow.Follows (F : Flow σ) (G : Flow τ) (R : σ → τ → Prop) : Prop where
  assign : ∀ name t m n, R m n → R (F.assign name t m) (G.assign name t n)
  enter : ∀ f g, (∀ m n, R m n → R (f m) (g n)) → ∀ m n, R m n → R (F.enter f m) (G.enter g n)
  leave : ∀ f g, (∀ m n, R m n → R (f m) (g n)) → ∀ m n, R m n → R (F.leave f m) (G.leave g n)

section

variable {F : Flow σ} {G : Flow τ} {R : σ → τ → Prop}

mutual

/-- Related knowledge in front of a pipeline gives related knowledge behind it. -/
theorem Pipeline.flow_follows (h : F.Follows G R) : (p : Pipeline) → ∀ {m n}, R m n → R (p.flow F m) (p.flow G n)
  | ⟨steps, _, _, _⟩, _, _, hmn => stepsFlow_follows h steps hmn

theorem stepsFlow_follows (h : F.Follows G R) : (steps : List Step) → ∀ {m n}, R m n →
    R (stepsFlow F steps m) (stepsFlow G steps n)
  | [], _, _, hmn => hmn
  | s :: rest, _, _, hmn => stepsFlow_follows h rest (s.flow_follows h hmn)

theorem Step.flow_follows (h : F.Follows G R) : (s : Step) → ∀ {m n}, R m n → R (s.flow F m) (s.flow G n)
  | ⟨_, _, _, piped, _, arguments, signature, _, _⟩, _, _, hmn =>
    argumentsFlow_follows h piped arguments signature.parameters hmn

theorem argumentsFlow_follows (h : F.Follows G R) (piped : Option ValueType) :
    (arguments : List Argument) → ∀ parameters {m n}, R m n →
      R (argumentsFlow F piped arguments parameters m) (argumentsFlow G piped arguments parameters n)
  | [], _, _, _, hmn => hmn
  | _ :: _, [], _, _, hmn => hmn
  | a :: rest, p :: parameters, _, _, hmn =>
    argumentsFlow_follows h piped rest parameters (a.flow_follows h piped p.kind hmn)

theorem Argument.flow_follows (h : F.Follows G R) : (a : Argument) → ∀ piped kind {m n}, R m n →
    R (a.flow F piped kind m) (a.flow G piped kind n)
  | .valueBlock p, _, _, _, _, hmn => p.flow_follows h hmn
  | .block p, _, _, _, _, hmn => h.leave _ _ (fun _ _ hmn => p.flow_follows h hmn) _ _ hmn
  | .variable _, _, .assign, _, _, hmn => h.assign _ _ _ _ hmn
  | .variable _, _, .variable, _, _, hmn => hmn
  | .variable _, _, .value _, _, _, hmn => hmn
  | .variable _, _, .block _ _, _, _, hmn => hmn
  | .literal _, _, _, _, _, hmn => hmn
  | .read _ _, _, _, _, _, hmn => hmn

end

/-- Where related knowledge is known, the properties `P` and `Q` of a step give `S`. -/
def Flow.Combines (R : σ → τ → Prop) (P : σ → Step → Prop) (Q S : τ → Step → Prop) : Prop :=
  ∀ m n s, R m n → P m s → Q n s → S n s

variable {P : σ → Step → Prop} {Q S : τ → Step → Prop}

mutual

/-- What each step has by one flow and what it has by the other, where related knowledge is known, together. -/
theorem Pipeline.each_follows (h : F.Follows G R) (hstep : Flow.Combines R P Q S) : (p : Pipeline) →
    ∀ {m n}, R m n → p.Each F P m → p.Each G Q n → p.Each G S n
  | ⟨steps, _, _, _⟩, _, _, hmn, hP, hQ => stepsEach_follows h hstep steps hmn hP hQ

theorem stepsEach_follows (h : F.Follows G R) (hstep : Flow.Combines R P Q S) : (steps : List Step) →
    ∀ {m n}, R m n → stepsEach F P steps m → stepsEach G Q steps n → stepsEach G S steps n
  | [], _, _, _, _, _ => trivial
  | s :: rest, _, _, hmn, hP, hQ =>
    ⟨s.each_follows h hstep hmn hP.1 hQ.1, stepsEach_follows h hstep rest (s.flow_follows h hmn) hP.2 hQ.2⟩

theorem Step.each_follows (h : F.Follows G R) (hstep : Flow.Combines R P Q S) : (s : Step) →
    ∀ {m n}, R m n → s.Each F P m → s.Each G Q n → s.Each G S n
  | ⟨_, _, _, piped, _, arguments, signature, _, _⟩, _, _, hmn, hP, hQ =>
    ⟨hstep _ _ _ hmn hP.1 hQ.1, argumentsEach_follows h hstep piped arguments signature.parameters hmn hP.2 hQ.2⟩

theorem argumentsEach_follows (h : F.Follows G R) (hstep : Flow.Combines R P Q S) (piped : Option ValueType) :
    (arguments : List Argument) → ∀ parameters {m n}, R m n → argumentsEach F P piped arguments parameters m →
      argumentsEach G Q piped arguments parameters n → argumentsEach G S piped arguments parameters n
  | [], _, _, _, _, _, _ => trivial
  | _ :: _, [], _, _, _, _, _ => trivial
  | a :: rest, p :: parameters, _, _, hmn, hP, hQ =>
    ⟨a.each_follows h hstep hmn hP.1 hQ.1,
      argumentsEach_follows h hstep piped rest parameters (a.flow_follows h piped p.kind hmn) hP.2 hQ.2⟩

theorem Argument.each_follows (h : F.Follows G R) (hstep : Flow.Combines R P Q S) : (a : Argument) →
    ∀ {m n}, R m n → a.Each F P m → a.Each G Q n → a.Each G S n
  | .valueBlock p, _, _, hmn, hP, hQ => p.each_follows h hstep hmn hP hQ
  | .block p, _, _, hmn, hP, hQ =>
    p.each_follows h hstep (h.enter _ _ (fun _ _ hmn => p.flow_follows h hmn) _ _ hmn) hP hQ
  | .literal _, _, _, _, _, _ => trivial
  | .read _ _, _, _, _, _, _ => trivial
  | .variable _, _, _, _, _, _ => trivial

end

end

end KeyConsole.Console
