import KeyConsole.Console.Pipeline.Reading
import KeyConsole.Proofs.Console.Admission
import KeyConsole.Proofs.Console.ReadingRules

/-!
# Proofs.Console.Typing: the types that reading has checked

`Pipeline.Typed d p` holds if the types written down in `p` fit together by the signatures of the directory
`d`: every step has the signature that its command resolves to, arguments that fit the parameters, and the
return type computed from them, and it takes the return type of the step before or nothing.  Every pipeline
that is read is typed.
-/

namespace KeyConsole.Console

variable (d : Directory)

/-- The type that a block argument tells its command. -/
def Argument.blockType? : Argument → Option ValueType
  | .block p => some p.returns
  | _ => none

mutual

/-- The steps fit together and with what is piped in and returned. -/
def Pipeline.Typed : Pipeline → Prop
  | ⟨steps, _, piped, returns⟩ => stepsTyped steps piped returns

/-- Each step takes what is piped to it and pipes its type on, or nothing behind a `;`.  There is a last
step, and its type is returned, or void behind a `;`. -/
def stepsTyped : List Step → Option ValueType → ValueType → Prop
  | [], _, _ => False
  | s :: rest, piped, returns =>
    s.Typed ∧ s.piped = piped ∧
      (rest = [] ∧ (returns = s.returns ∨ returns = .void)
        ∨ stepsTyped rest (some s.returns) returns ∨ stepsTyped rest none returns)

/-- The step has a signature of its command, and arguments and a return type by this signature. -/
def Step.Typed : Step → Prop
  | ⟨name, subcommand, _, piped, types, arguments, signature, returns, _⟩ =>
    argumentsTyped arguments signature.parameters piped ∧
      ∃ c variableTypes, d.get? name = some c ∧
        c.resolve? subcommand piped types.length = some signature ∧
        returns = signature.returns.type
          { piped, types, blocks := arguments.filterMap Argument.blockType?, variableTypes }

/-- There is one argument for each parameter. -/
def argumentsTyped : List Argument → List Parameter → Option ValueType → Prop
  | [], [], _ => True
  | a :: rest, p :: parameters, piped => a.Typed p.kind piped ∧ argumentsTyped rest parameters piped
  | _, _, _ => False

/-- The argument is of the kind that a parameter asks for. -/
def Argument.Typed : Argument → ParameterKind → Option ValueType → Prop
  | .literal v, .value t, _ => t.Admits v
  | .read _ u, .value t, _ => u = t
  | .valueBlock p, .value t, _ => p.Typed ∧ p.piped = none ∧ p.returns.assignable t
  | .block p, .block feed output, piped =>
    p.Typed ∧ p.piped = feed.type piped ∧ ∀ t ∈ output, p.returns.assignable t
  | .variable _, .assign, _ => True
  | .variable _, .variable, _ => True
  | _, _, _ => False

end

open Reading

variable {d : Directory}

/-! ### Literals -/

namespace Literal

theorem yields_scalar {t : ValueType} {value? : String → Option Value}
    (h : ∀ w, ∀ v ∈ value? w, t.Admits v) : (scalar t value?).Yields t.Admits := by
  unfold scalar
  refine Yields.next fun start => Yields.next fun w => ?_
  dsimp only
  split
  · rename_i v hv
    exact Yields.pure (h _ v hv)
  · exact yields_unreadable

theorem yields_text : text.Yields ValueType.string.Admits := by
  unfold text
  refine Yields.next fun start => Yields.next fun quoted => Yields.ite (fun _ => ?_) fun _ => ?_
  · refine Yields.next fun c => ?_
    split
    · exact Yields.next fun _ => Yields.pure ⟨_, rfl⟩
    · exact Yields.next fun _ => yields_unreadable
  · refine Yields.next fun w => ?_
    split
    · exact Yields.pure ⟨_, rfl⟩
    · exact yields_unreadable

/-- The items read so far and those still to come are all admitted. -/
theorem yields_round {element t : ValueType} {item : Reading Value} {rest : List Value → Reading (List Value)}
    {read : List Value} (hitem : item.Yields element.Admits)
    (hrest : ∀ read, (∀ v ∈ read, element.Admits v) → (rest read).Yields fun vs => ∀ v ∈ vs, element.Admits v)
    (hread : ∀ v ∈ read, element.Admits v) :
    (round t item rest read).Yields fun vs => ∀ v ∈ vs, element.Admits v := by
  unfold round
  refine Yields.next fun _ => Yields.next fun _ => Yields.ite (fun _ => ?_) fun _ => ?_
  · exact Yields.pure fun v hv => hread v (List.mem_reverse.mp hv)
  · refine Yields.bind hitem fun v hv => ?_
    have hall : ∀ w ∈ v :: read, element.Admits w := List.forall_mem_cons.mpr ⟨hv, hread⟩
    refine Yields.next fun _ => Yields.next fun _ => Yields.ite (fun _ => hrest _ hall) fun _ => ?_
    refine Yields.next fun _ => Yields.ite (fun _ => ?_) fun _ => ?_
    · exact Yields.pure fun w hw => hall w (List.mem_reverse.mp hw)
    · exact Yields.next fun _ => Yields.next fun _ => Yields.refuse

theorem yields_items {element t : ValueType} {item : Reading Value} (hitem : item.Yields element.Admits) (n : Nat)
    (read : List Value) (hread : ∀ v ∈ read, element.Admits v) :
    (items t item n read).Yields fun vs => ∀ v ∈ vs, element.Admits v := by
  induction n generalizing read with
  | zero => exact Yields.failure
  | succ n ih => exact yields_round hitem ih hread

theorem yields_list {element t : ValueType} {item : Reading Value}
    (hitem : item.Yields element.Admits) : (list t item).Yields (ValueType.list element).Admits := by
  unfold list
  refine Yields.next fun start => Yields.next fun c => ?_
  split
  · exact Yields.next fun _ => yields_unreadable
  · have hitems : (allItems t item []).Yields fun vs => ∀ v ∈ vs, element.Admits v :=
      Yields.next fun n => yields_items hitem _ [] fun v hv => by cases hv
    exact Yields.next fun _ => Yields.bind (Yields.inChild hitems) fun vs hvs => Yields.pure ⟨vs, rfl, hvs⟩

theorem yields_form {literals : ValueType → Reading Value} (h : ∀ t, (literals t).Yields t.Admits) (t : ValueType) :
    (form literals t).Yields t.Admits := by
  unfold form
  refine Yields.next fun _ => ?_
  cases t with
  | void => exact Yields.next fun _ => yields_unreadable
  | int =>
    refine yields_scalar fun w v hv => ?_
    obtain ⟨n, -, rfl⟩ := Option.map_eq_some_iff.mp hv
    exact ⟨n, rfl⟩
  | float =>
    refine yields_scalar fun w v hv => ?_
    obtain ⟨x, -, rfl⟩ := Option.map_eq_some_iff.mp hv
    exact ⟨x, rfl⟩
  | bool =>
    refine yields_scalar fun w v hv => ?_
    obtain ⟨b, -, rfl⟩ := Option.map_eq_some_iff.mp hv
    exact ⟨b, rfl⟩
  | string => exact yields_text
  | list element => exact yields_list (h element)
  | any => exact fun _ _ _ => trivial

theorem yields_nested (depth : Nat) (t : ValueType) : (nested depth t).Yields t.Admits := by
  induction depth generalizing t with
  | zero => exact Yields.failure
  | succ depth ih => exact yields_form ih t

end Literal

theorem yields_literal (t : ValueType) : (literal t).Yields t.Admits :=
  Yields.next fun _ => Literal.yields_nested _ t

namespace Cursor

/-! ### Marks between commands -/

/-- Between two commands the type piped on stays or is dropped. -/
theorem joint?_piped {t : Option ValueType} {c : Cursor} {j : Joint}
    (h : c.joint? t = some j) : j.piped = none ∨ j.piped = t := by
  unfold joint? at h
  split at h
  · cases h
    exact Or.inl rfl
  · split at h
    · cases h
      exact Or.inr rfl
    · split at h
      · cases h
        exact Or.inl rfl
      · cases h

theorem moreJoints_piped (n : Nat) (j : Joint) :
    (moreJoints n j).piped = none ∨ (moreJoints n j).piped = j.piped := by
  induction n generalizing j with
  | zero => exact Or.inr rfl
  | succ n ih =>
    unfold moreJoints
    split
    · exact Or.inr rfl
    · split
      · exact Or.inr rfl
      · rename_i k hk
        rcases ih { k with after := k.after.skipSpace } with h | h
        · exact Or.inl h
        · rw [h]
          exact joint?_piped (j := k) hk

theorem joints_piped (t : Option ValueType) (c : Cursor) :
    (c.joints t).piped = none ∨ (c.joints t).piped = t := by
  unfold joints allJoints
  split
  · exact Or.inr rfl
  · rename_i j hj
    rcases moreJoints_piped j.after.skipSpace.rest.length { j with after := j.after.skipSpace } with h | h
    · exact Or.inl h
    · rw [h]
      exact joint?_piped (j := j) hj

end Cursor

namespace Reading

/-! ### Arguments -/

/-- Blocks are read as typed pipelines that take and return what they have to. -/
def TypesBlocks (d : Directory) (nested : BlockReading) : Prop :=
  ∀ once piped target, (nested once piped target).Yields fun p =>
    p.Typed d ∧ p.piped = piped ∧ ∀ t ∈ target, p.returns.assignable t

variable {nested : BlockReading} {command : String} {piped : Option ValueType}

theorem TypesBlocks.yields_block (hn : TypesBlocks d nested) (piped target : Option ValueType) :
    (block nested piped target).Yields fun p =>
      p.Typed d ∧ p.piped = piped ∧ ∀ t ∈ target, p.returns.assignable t := by
  unfold block
  refine Yields.next fun _ => Yields.next fun start => Yields.next fun brace =>
    Yields.ite (fun _ => ?_) fun _ => hn true piped target
  refine Yields.next fun _ => Yields.bind (hn false piped target) fun p hp => Yields.next fun closed => ?_
  exact Yields.ite (fun _ => Yields.pure hp) fun _ => Yields.next fun _ => Yields.refuse

/-- An argument is of the kind of its parameter. -/
theorem TypesBlocks.yields_argument (hn : TypesBlocks d nested) (p : Parameter) :
    (argument nested command piped p).Yields fun a => a.Typed d p.kind piped := by
  unfold argument
  refine Yields.next fun _ => Yields.next fun c => Yields.ite (fun _ => ?_) fun _ =>
    Yields.ite (fun _ => Yields.refuse) fun _ => ?_
  · exact Yields.next fun _ => Yields.next fun _ => Yields.refuse
  · cases p.kind with
    | value t =>
      dsimp only
      split
      · exact Yields.next fun name => Yields.pure rfl
      · refine Yields.bind (hn.yields_block none (some t)) fun p hp => Yields.pure ?_
        exact ⟨hp.1, hp.2.1, hp.2.2 t rfl⟩
      · exact Yields.bind (yields_literal t) fun v hv => Yields.pure hv
    | block feed output =>
      exact Yields.bind (hn.yields_block (feed.type piped) output) fun p hp => Yields.pure hp
    | assign => exact Yields.next fun name => Yields.next fun _ => Yields.pure trivial
    | _ => exact Yields.next fun name => Yields.pure trivial

/-- The block types that are kept beside the arguments are those of the arguments. -/
theorem Arguments.blocks_cons {p : Parameter} {known : Ordered.NameMap ValueType} {a : Argument}
    {rest : Arguments} (ha : a.Typed d p.kind piped)
    (hrest : rest.blocks = rest.arguments.filterMap Argument.blockType?) :
    (rest.cons p piped known a).blocks
      = (rest.cons p piped known a).arguments.filterMap Argument.blockType? := by
  unfold Arguments.cons
  cases a <;> cases hk : p.kind <;> rw [hk] at ha <;>
    first
      | exact False.elim ha
      | simp [hrest, Argument.blockType?, List.filterMap_cons]

theorem TypesBlocks.yields_arguments (hn : TypesBlocks d nested) (ps : List Parameter) :
    (arguments nested command piped ps).Yields fun r =>
      argumentsTyped d r.arguments ps piped ∧
        r.blocks = r.arguments.filterMap Argument.blockType? := by
  induction ps with
  | nil => exact Yields.pure ⟨trivial, rfl⟩
  | cons p ps ih =>
    refine Yields.bind (hn.yields_argument p) fun a ha => Yields.next fun known => ?_
    refine Yields.bind ih fun rest ⟨hrest, hblocks⟩ => Yields.pure ⟨?_, Arguments.blocks_cons ha hblocks⟩
    rw [Arguments.arguments_cons]
    exact ⟨ha, hrest⟩

/-! ### Commands -/

/-- A command is read as a typed step. -/
theorem TypesBlocks.yields_command (hn : TypesBlocks d nested) (start : Nat) :
    (Reading.command d nested piped start).Yields fun s => s.Typed d ∧ s.piped = piped := by
  refine Yields.bind yields_commandHead fun h ⟨c, hc, hresolve⟩ => ?_
  refine Yields.bind (hn.yields_arguments h.signature.parameters) fun read ⟨hread, hblocks⟩ => Yields.next fun span =>
    Yields.pure ⟨⟨hread, c, read.variableTypes, hc, hresolve, ?_⟩, rfl⟩
  rw [hblocks]

/-! ### Pipelines -/

/-- The type that steps return: void behind a `;`, else that of the last step. -/
def Steps.returns (r : Steps) : ValueType :=
  match r.piped with
  | none => .void
  | some _ => r.steps.getLast?.elim .void (·.returns)

theorem TypesBlocks.yields_row (hn : TypesBlocks d nested) {once : Bool} {rest : Option ValueType → Reading Steps}
    (hrest : ∀ piped, (rest piped).Yields fun r => stepsTyped d r.steps piped r.returns) (piped : Option ValueType) :
    (row d nested once rest piped).Yields fun r => stepsTyped d r.steps piped r.returns := by
  unfold row
  refine Yields.next fun start => Yields.bind (hn.yields_command start) fun s hs => ?_
  have hone : ∀ t, t = none ∨ t = some s.returns →
      stepsTyped d [s] piped (Steps.returns ⟨[s], t⟩) := by
    rintro t (rfl | rfl)
    · exact ⟨hs.1, hs.2, Or.inl ⟨rfl, Or.inr rfl⟩⟩
    · exact ⟨hs.1, hs.2, Or.inl ⟨rfl, Or.inl rfl⟩⟩
  refine Yields.ite (fun _ => Yields.pure (hone _ (Or.inr rfl))) fun _ => Yields.next fun before =>
    Yields.next fun _ => ?_
  refine Yields.bind (Yields.look (P := fun j => j.piped = none ∨ j.piped = some s.returns)
    (Cursor.joints_piped _)) fun joint hjoint => ?_
  refine Yields.next fun _ => Yields.next fun c => Yields.ite (fun _ => Yields.pure (hone _ hjoint)) fun _ =>
    Yields.ite (fun _ => Yields.refuse) fun _ => Yields.ite (fun _ => ?_) fun _ => Yields.ite (fun _ => ?_)
      fun _ => Yields.ite (fun _ => Yields.refuse) fun _ => ?_
  · exact Yields.next fun _ => Yields.next fun _ => Yields.refuse
  · extract_lets ended
    exact Yields.ite (fun _ => Yields.next fun _ => Yields.pure (hone _ hjoint)) fun _ =>
      Yields.pure (hone _ hjoint)
  · refine Yields.bind (hrest joint.piped) fun others hothers => Yields.pure ?_
    have hne : others.steps ≠ [] := fun h => by
      rw [h] at hothers
      exact hothers
    have hreturns : Steps.returns { others with steps := s :: others.steps } = others.returns := by
      unfold Steps.returns
      rw [List.getLast?_cons_of_ne_nil hne]
    rw [hreturns]
    refine ⟨hs.1, hs.2, Or.inr ?_⟩
    rcases hjoint with h | h
    · rw [h] at hothers
      exact Or.inr hothers
    · rw [h] at hothers
      exact Or.inl hothers

theorem TypesBlocks.yields_steps (hn : TypesBlocks d nested) (once : Bool) (n : Nat)
    (piped : Option ValueType) :
    (steps d nested once n piped).Yields fun r => stepsTyped d r.steps piped r.returns := by
  induction n generalizing piped with
  | zero => exact Yields.failure
  | succ n ih => exact hn.yields_row ih piped

theorem TypesBlocks.pipeline (hn : TypesBlocks d nested) : TypesBlocks d (pipeline d nested) := by
  intro once piped target
  unfold Reading.pipeline
  refine Yields.next fun _ => Yields.next fun start => Yields.next fun closed => ?_
  extract_lets behind
  have hbehind : ∀ u, (behind u).Yields fun p =>
      p.Typed d ∧ p.piped = piped ∧ ∀ t ∈ target, p.returns.assignable t := by
    intro u
    refine Yields.bind (Yields.next fun n => hn.yields_steps once _ piped) fun read hread => ?_
    refine Yields.ite (fun htarget => ?_) fun _ => Yields.next fun _ => Yields.refuse
    refine Yields.next fun source => Yields.pure ⟨hread, rfl, fun t ht => ?_⟩
    rw [ht] at htarget
    exact htarget
  exact Yields.ite (fun _ => Yields.next fun _ => hbehind ()) fun _ => hbehind ()

theorem typesBlocks_readNested (depth : Nat) : TypesBlocks d (readNested d depth) := by
  induction depth with
  | zero => exact fun _ _ _ => Yields.failure
  | succ depth ih => exact ih.pipeline

end Reading

/-- Every pipeline that is read is typed, by what was said to be piped in. -/
theorem Directory.read_typed {source : String} {piped : Option ValueType}
    {known : Ordered.NameMap ValueType} {p : Pipeline} (h : d.read source piped known = .ok p) :
    p.Typed d ∧ p.piped = piped := by
  unfold Directory.read at h
  split at h
  · rename_i q c hq
    cases h
    have hwhole : (Reading.whole d piped).Yields fun p =>
        p.Typed d ∧ p.piped = piped ∧ ∀ t ∈ (none : Option ValueType), p.returns.assignable t :=
      Yields.next fun n => typesBlocks_readNested _ false piped none
    obtain ⟨htyped, hpiped, -⟩ := hwhole _ p (congrArg Prod.fst hq)
    exact ⟨htyped, hpiped⟩
  · cases h

end KeyConsole.Console
