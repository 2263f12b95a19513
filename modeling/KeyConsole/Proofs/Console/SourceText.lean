import KeyConsole.Proofs.Console.GrammarRules

/-!
# Proofs.Console.SourceText: every part of an expression knows the whole text

While an expression is read the cursor moves, but it stays in the same source text.  So every pipeline that is
read has the whole text for its source, and so have the blocks in it, however deep.
-/

namespace KeyConsole.Console

open Reading

variable {source : String}

/-! ### Pipelines with a source -/

mutual

/-- The pipeline and the blocks in it have the text for their source. -/
def Pipeline.From (source : String) : Pipeline → Prop
  | ⟨steps, text, _, _⟩ => text = source ∧ stepsFrom source steps

/-- The blocks in the steps have the text for their source. -/
def stepsFrom (source : String) : List Step → Prop
  | [] => True
  | s :: rest => s.From source ∧ stepsFrom source rest

/-- The blocks in the step have the text for their source. -/
def Step.From (source : String) : Step → Prop
  | ⟨_, _, _, _, _, arguments, _, _, _⟩ => argumentsFrom source arguments

/-- The blocks in the arguments have the text for their source. -/
def argumentsFrom (source : String) : List Argument → Prop
  | [] => True
  | a :: rest => a.From source ∧ argumentsFrom source rest

/-- The block that the argument may be has the text for its source. -/
def Argument.From (source : String) : Argument → Prop
  | .valueBlock p => p.From source
  | .block p => p.From source
  | _ => True

end

namespace Reading

variable {d : Directory} {nested : BlockReading} {command : String} {piped : Option ValueType}

/-- Blocks that are read in the text have it for their source. -/
def KeepsSource (source : String) (nested : BlockReading) : Prop :=
  ∀ c : Cursor, c.source = source → ∀ once piped target,
    Covers c (nested once piped target) fun _ p _ => p.From source

namespace KeepsSource

variable (hn : KeepsSource source nested) {c : Cursor} (hc : c.source = source)

include hn hc

theorem covers_block (piped target : Option ValueType) :
    Covers c (block nested piped target) fun _ p _ => p.From source := by
  refine covers_block_of (fun {before f} hbefore _ => ?_) fun hbefore _ => ?_
  · have hf : (f.pushCloser '}').source = source := hbefore.source.trans hc
    exact (hn _ hf false piped target).mono fun _ p _ _ hp _ _ _ => hp
  · exact hn _ (hbefore.source.trans hc) true piped target

theorem covers_argument (p : Parameter) :
    Covers c (argument nested command piped p) fun _ a _ => a.From source := by
  refine covers_argument_of (fun ha _ _ => ?_) (fun _ hspace _ => ?_) (fun _ hspace _ => ?_) fun _ _ _ => trivial
  · rcases ha.cases with ⟨v, rfl⟩ | ⟨name, t, rfl⟩ | ⟨name, rfl⟩ <;> trivial
  · exact hn.covers_block (hspace.source.trans hc) _ _
  · exact hn.covers_block (hspace.source.trans hc) _ _

theorem covers_arguments (ps : List Parameter) :
    Covers c (arguments nested command piped ps) fun _ r _ => argumentsFrom source r.arguments := by
  induction ps generalizing c with
  | nil => exact .pure trivial
  | cons p ps ih =>
    refine Covers.bind (hn.covers_argument hc p) fun _ a e hfirst ha => Covers.look ?_
    refine Covers.bind (ih (hfirst.source.trans hc)) fun _ rest _ _ hrest => .pure ?_
    rw [Arguments.arguments_cons]
    exact ⟨ha, hrest⟩

theorem covers_command (start : Nat) :
    Covers c (Reading.command d nested piped start) fun _ s _ => s.From source :=
  covers_command_of fun htext _ _ _ _ => hn.covers_arguments (htext.source.trans hc) _

theorem covers_commands (once : Bool) (piped : Option ValueType) :
    Covers c (commands d nested once piped) fun _ r e =>
      stepsFrom source r.steps ∧ (once = false → e.atCloser ∨ e.atEnd) :=
  covers_commands_of (R := fun _ _ steps _ => stepsFrom source steps) (fun hc hpassed => hpassed.source.trans hc)
    (fun hc => hn.covers_command hc _) (fun _ hs _ _ _ => ⟨hs, trivial⟩) (fun _ hs _ _ _ hrest => ⟨hs, hrest⟩)
    hc once piped

omit hc in
theorem pipeline : KeepsSource source (pipeline d nested) := by
  intro c hc once piped target
  refine covers_pipeline_of fun hspace _ _ => ?_
  have hb := hspace.source.trans hc
  exact (hn.covers_commands hb once piped).mono fun _ _ e hpassed h _ => ⟨hpassed.source.trans hb, h.1⟩

end KeepsSource

theorem keepsSource_readNested (depth : Nat) : KeepsSource source (readNested d depth) := by
  induction depth with
  | zero => exact fun _ _ _ _ _ => .failure
  | succ depth ih => exact ih.pipeline

end Reading

/-- Every pipeline that is read has the whole text for its source, and so have its blocks. -/
theorem Directory.read_from {d : Directory} {piped : Option ValueType} {known : Ordered.NameMap ValueType}
    {p : Pipeline} (h : d.read source piped known = .ok p) : p.From source := by
  unfold Directory.read at h
  split at h
  · rename_i q c hq
    cases h
    have hwhole : Covers (d.cursor source known) (Reading.whole d piped) fun _ p _ => p.From source :=
      Covers.look (keepsSource_readNested _ _ rfl false piped none)
    obtain ⟨-, -, hfrom⟩ := hwhole p (congrArg Prod.fst hq)
    exact hfrom
  · cases h

end KeyConsole.Console
