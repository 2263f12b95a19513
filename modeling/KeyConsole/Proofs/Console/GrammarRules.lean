import KeyConsole.Proofs.Console.Passage

/-!
# Proofs.Console.GrammarRules: the parts of an expression, and what they cover

One rule for each part of an expression: what a block, an argument, a command, a row of commands and a pipeline cover
follows from what the readings of their parts cover.  The text between the parts is passed, and apart from `=> $x`
no variable is made known there.
-/

namespace KeyConsole.Console.Reading

open Cursor (Passes isSeparator)

variable {d : Directory} {nested : BlockReading} {c : Cursor} {piped target : Option ValueType}

/-- What is read is put into something else. -/
theorem Covers.map {α β : Type} {x : Reading α} {f : α → β} {Q : List Char → β → Cursor → Prop}
    (hx : Covers c x fun text a => Q text (f a)) : Covers c (x >>= fun a => Pure.pure (f a)) Q := by
  refine Covers.bind hx fun text a e _ h => .pure ?_
  rw [List.append_nil]
  exact h

theorem covers_skipSpace (c : Cursor) :
    Covers c skipSpace fun text _ e => (∀ x ∈ text, isSeparator x) ∧ e.known = c.known := by
  intro _ _
  obtain ⟨text, htext, hblank⟩ := Cursor.advances_skipSpace c
  exact ⟨text, htext.passes, fun x hx => Cursor.isSeparator_of_isBlank (hblank x hx), rfl⟩

/-- A block stands in braces, or it is a single command. -/
theorem covers_block_of {Q : List Char → Pipeline → Cursor → Prop}
    (henclosed : ∀ {before : List Char} {f : Cursor}, c.Passes before f → f.known = c.known →
      Covers (f.pushCloser '}') (nested false piped target) fun inside p g => ∀ e : Cursor,
        g.Passes ['}'] { e with closers := '}' :: e.closers } → e.known = g.known →
          Q (before ++ (inside ++ ['}'])) p e)
    (hsingle : ∀ {before : List Char} {f : Cursor}, c.Passes before f → f.known = c.known →
      Covers f (nested true piped target) fun inside => Q (before ++ inside)) :
    Covers c (block nested piped target) Q := by
  unfold block
  refine Covers.bind (Passing.skipSpace c) fun space _ b hspace hb => Covers.look ?_
  refine Covers.bind (Passing.eat '{' b) fun mark brace f hmark hf => ?_
  have hbefore := hspace.trans hmark
  have hknown : f.known = c.known := hf.trans hb
  refine Covers.ite (fun _ => ?_) fun _ => (hsingle hbefore hknown).mono fun inside p e _ h => ?_
  · refine (Covers.enclosed (henclosed hbefore hknown) fun _ => ?_).mono ?_
    · exact Covers.next (passing_spanFrom _) fun _ _ _ _ => .refuse
    · rintro text p e - ⟨inside, g, rfl, -, h, hclosed, hknown⟩
      rw [← List.append_assoc]
      exact h e hclosed hknown
  · rw [← List.append_assoc]
    exact h

/-- An argument that is neither a block nor set by its command. -/
def Argument.Plain (kind : ParameterKind) (a : Argument) : Prop :=
  match kind, a with
  | .value _, .literal _ => True
  | .value t, .read _ u => u = t
  | .variable, .variable _ => True
  | _, _ => False

theorem Argument.Plain.cases {kind : ParameterKind} {a : Argument} (h : Plain kind a) :
    (∃ v, a = .literal v) ∨ (∃ name t, a = .read name t) ∨ ∃ name, a = .variable name := by
  cases a with
  | literal v => exact Or.inl ⟨v, rfl⟩
  | read name t => exact Or.inr (Or.inl ⟨name, t, rfl⟩)
  | «variable» name => exact Or.inr (Or.inr ⟨name, rfl⟩)
  | valueBlock => cases kind <;> exact h.elim
  | block => cases kind <;> exact h.elim

/-- An argument is of the kind that its parameter asks for. -/
theorem covers_argument_of {command : String} {p : Parameter} {Q : List Char → Argument → Cursor → Prop}
    (hplain : ∀ {text e a}, Argument.Plain p.kind a → c.Passes text e → e.known = c.known → Q text a e)
    (hvalue : ∀ {space b t}, p.kind = .value t → c.Passes space b → b.known = c.known →
      Covers b (block nested none (some t)) fun text q => Q (space ++ text) (.valueBlock q))
    (hblock : ∀ {space b feed output}, p.kind = .block feed output → c.Passes space b → b.known = c.known →
      Covers b (block nested (feed.type piped) output) fun text q => Q (space ++ text) (.block q))
    (hassign : ∀ {text e name}, p.kind = .assign → c.Passes text e →
      e.known = c.known.put name (piped.getD .any) → Q text (.variable name) e) :
    Covers c (argument nested command piped p) Q := by
  unfold argument
  refine Covers.bind (Passing.skipSpace c) fun space _ b hspace hb => Covers.get ?_
  refine Covers.ite (fun _ => ?_) fun _ => Covers.ite (fun _ => .refuse) fun _ => ?_
  · exact Covers.next (.offer _) fun _ _ _ _ => Covers.next .offset fun _ _ _ _ => .refuse
  · cases hkind : p.kind with
    | value t =>
      rw [hkind] at hplain
      dsimp only
      split
      · exact .map ((passing_variableName _ b).mono fun text name e htext he =>
          hplain rfl (hspace.trans htext) (he.trans hb))
      · exact .map (hvalue hkind hspace hb)
      · exact .map ((passing_literal t b).mono fun text v e htext he =>
          hplain trivial (hspace.trans htext) (he.trans hb))
    | block feed output => exact .map (hblock hkind hspace hb)
    | assign =>
      refine Covers.bind (passing_variableName _ b) fun text name e htext he => ?_
      have hdeclared := (hspace.trans htext).trans (Cursor.passes_declare name (piped.getD .any) e)
      rw [List.append_assoc] at hdeclared
      refine Covers.move (Cursor.passes_declare _ _ _) (.pure (hassign hkind hdeclared ?_))
      exact congrArg (Ordered.NameMap.put · name (piped.getD .any)) (he.trans hb)
    | «variable» =>
      rw [hkind] at hplain
      exact .map ((passing_variableName _ b).mono fun text name e htext he =>
        hplain trivial (hspace.trans htext) (he.trans hb))

/-- A command covers what it covers up to its type arguments, and what its arguments cover. -/
theorem covers_command_of {start : Nat} {Q : List Char → Step → Cursor → Prop}
    (harguments : ∀ {text e name registered sub inverted types signature}, c.Passes text e → text ≠ [] →
      e.known = c.known → d.get? name = some registered →
        registered.resolve? sub piped types.length = some signature →
          Covers e (arguments nested (Command.fullName name sub) piped signature.parameters) fun more read f =>
            Q (text ++ more)
              { name, subcommand := sub, inverted, piped, types, arguments := read.arguments, signature,
                returns := signature.returns.type
                  { piped, types, blocks := read.blocks, variableTypes := read.variableTypes },
                span := .between start f.offset } f) :
    Covers c (command d nested piped start) Q := by
  unfold command Head.finish
  refine Covers.bind ((covers_commandHead d piped c).yields yields_commandHead) fun text h e htext hhead => ?_
  obtain ⟨⟨hne, hknown⟩, registered, hregistered, hresolve⟩ := hhead
  have hread := @harguments text e h.name registered h.subcommand h.inverted h.types h.signature htext hne hknown
    hregistered hresolve
  refine Covers.bind hread fun more read f _ hQ => Covers.look (Covers.pure ?_)
  rw [List.append_nil]
  exact hQ

section

variable {I : Cursor → Prop} {S : Cursor → List Char → Step → Cursor → Prop}
  {R : Cursor → List Char → List Step → Cursor → Prop} (hpass : ∀ {c e text}, I c → c.Passes text e → I e)
  (hstep : ∀ {c piped}, I c → Covers c (command d nested piped c.offset) (S c))
  (hlast : ∀ {c e f word gap s}, c.Passes word e → S c word s e → e.Passes gap f → (∀ x ∈ gap, isSeparator x) →
    f.known = e.known → R c (word ++ gap) [s] f)
  (hnext : ∀ {c e f g word gap more s rest}, c.Passes word e → S c word s e → e.Passes gap f →
    (∀ x ∈ gap, isSeparator x) → f.known = e.known → R f more rest g → R c (word ++ (gap ++ more)) (s :: rest) g)

include hpass hstep hlast hnext

/-- A command is followed by separators, and then by the end or by what `rest` reads. -/
theorem covers_row_of {once : Bool} {rest : Option ValueType → Reading Steps}
    (hrest : ∀ {c} piped, I c → Covers c (rest piped) fun text r e =>
      R c text r.steps e ∧ (once = false → e.atCloser ∨ e.atEnd)) (hc : I c) (piped : Option ValueType) :
    Covers c (row d nested once rest piped) fun text r e =>
      R c text r.steps e ∧ (once = false → e.atCloser ∨ e.atEnd) := by
  unfold row
  refine Covers.look (Covers.bind (hstep hc) fun word s e hword hs => ?_)
  refine Covers.ite (fun honce => Covers.pure ⟨?_, fun h => ?_⟩) fun _ => Covers.look ?_
  · exact hlast hword hs (.refl e) (fun x hx => (List.not_mem_nil hx).elim) rfl
  · rw [h] at honce
    cases honce
  refine Covers.bind (covers_skipSpace e) fun space _ b hspace ⟨hblank, hb⟩ => Covers.look ?_
  obtain ⟨marks, hmarks, hseparators⟩ := Cursor.advances_joints (some s.returns) b
  have hgap : ∀ x ∈ space ++ marks, isSeparator x := by
    intro x hx
    rcases List.mem_append.mp hx with hx | hx
    · exact hblank x hx
    · exact hseparators x hx
  have hpassed := hspace.trans hmarks.passes
  have hknown := hmarks.known.trans hb
  have hone : R c (word ++ (space ++ (marks ++ []))) [s] (b.joints (some s.returns)).after := by
    rw [List.append_nil]
    exact hlast hword hs hpassed hgap hknown
  refine Covers.set hmarks.passes (Covers.get ?_)
  refine Covers.ite (fun h => Covers.pure ⟨hone, fun _ => ?_⟩) fun _ => Covers.ite (fun _ => .refuse) fun _ =>
    Covers.ite (fun _ => ?_) fun _ => Covers.ite (fun h => ?_) fun _ => Covers.ite (fun _ => .refuse) fun _ => ?_
  · exact Or.inl ((Bool.and_eq_true _ _).mp h).1
  · exact Covers.next (.offer _) fun _ _ _ _ => Covers.next .offset fun _ _ _ _ => .refuse
  · extract_lets ended
    refine Covers.ite (fun _ => ?_) fun _ => Covers.pure ⟨hone, fun _ => Or.inr h⟩
    have hoffer := Cursor.passes_offer (.commands (b.joints (some s.returns)).piped "")
      (b.joints (some s.returns)).after
    refine Covers.move hoffer (Covers.pure ⟨?_, fun _ => Or.inr ?_⟩)
    · have hoffered := hlast hword hs (hpassed.trans hoffer) (by rwa [List.append_nil])
        ((Cursor.known_offer _ _).trans hknown)
      simpa only [List.append_assoc, List.append_nil] using hoffered
    · unfold Cursor.atEnd
      rw [hoffer.stop, hoffer.offset]
      exact h
  · refine Covers.bind (hrest _ (hpass (hpass hc hword) hpassed)) fun more others f _ ⟨hothers, hend⟩ =>
      Covers.pure ⟨?_, hend⟩
    have hall := hnext hword hs hpassed hgap hknown hothers
    simpa only [List.append_assoc, List.append_nil] using hall

/-- From places where `I` holds, what the commands up to a closing mark or the end cover, `R`, follows from what one
command covers, `S`. -/
theorem covers_commands_of (hc : I c) (once : Bool) (piped : Option ValueType) :
    Covers c (commands d nested once piped) fun text r e =>
      R c text r.steps e ∧ (once = false → e.atCloser ∨ e.atEnd) := by
  have hsteps : ∀ n {c} piped, I c → Covers c (steps d nested once n piped) fun text r e =>
      R c text r.steps e ∧ (once = false → e.atCloser ∨ e.atEnd) := by
    intro n
    induction n with
    | zero => exact fun _ _ => .failure
    | succ n ih => exact fun piped hc => covers_row_of hpass hstep hlast hnext ih hc piped
  exact Covers.look (hsteps _ piped hc)

end

/-- A pipeline covers what its commands cover, and the space in front. -/
theorem covers_pipeline_of {once : Bool} {Q : List Char → Pipeline → Cursor → Prop}
    (hcommands : ∀ {space b}, c.Passes space b → (∀ x ∈ space, isSeparator x) → b.known = c.known →
      Covers b (commands d nested once piped) fun text read e => ∀ returns,
        Q (space ++ text) { steps := read.steps, source := e.source, piped, returns } e) :
    Covers c (pipeline d nested once piped target) Q := by
  unfold pipeline
  refine Covers.bind (covers_skipSpace c) fun space _ b hspace ⟨hblank, hb⟩ => Covers.look (Covers.look ?_)
  extract_lets behind
  have hbehind : ∀ u, Covers b (behind u) fun text => Q (space ++ text) := by
    intro u
    refine Covers.bind (hcommands hspace hblank hb) fun text read e _ h => ?_
    refine Covers.ite (fun _ => Covers.look (Covers.pure ?_)) fun _ => ?_
    · rw [List.append_nil]
      exact h _
    · exact Covers.next (passing_spanFrom _) fun _ _ _ _ => .refuse
  exact Covers.ite (fun _ => Covers.bind (P := fun _ _ _ => False) .refuse fun _ _ _ _ h => h.elim)
    fun _ => hbehind ()

end KeyConsole.Console.Reading
