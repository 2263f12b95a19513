import KeyConsole.Console.Builtin
import KeyConsole.Proofs.Console.GrammarRules

/-!
# Proofs.Console.Coverage: nothing in an expression is ignored

The commands of an expression that has been read stand in their order in the text, each over a stretch of its own,
and between, before and behind them there are only blanks, semicolons and bars.  The commands of a block stand in
the same way inside the stretch of the command that the block is for.
-/

namespace KeyConsole.Console

open Text (size isBlank slice?)
open Cursor (isSeparator)

/-! ### Steps in a text -/

/-- Between two places of a text the steps stand one behind the other, each over some whole characters. -/
def InOrder (source : List Char) : (low high : Nat) → List Step → Prop
  | low, high, [] => low ≤ high
  | low, high, s :: rest =>
    low ≤ s.span.start ∧ s.span.start < s.span.stop ∧ (slice? s.span.start s.span.stop source).isSome ∧
      InOrder source s.span.stop high rest

mutual

/-- The steps of the pipeline stand in order between two places, and so do those of the blocks in it, inside the
step with the block. -/
def Pipeline.Within (source : List Char) (low high : Nat) : Pipeline → Prop
  | ⟨steps, _, _, _⟩ => InOrder source low high steps ∧ stepsNested source steps

/-- The blocks of each step stand inside it. -/
def stepsNested (source : List Char) : List Step → Prop
  | [] => True
  | s :: rest => s.Nested source ∧ stepsNested source rest

/-- The blocks of the step stand inside it. -/
def Step.Nested (source : List Char) : Step → Prop
  | ⟨_, _, _, _, _, arguments, _, _, span⟩ => argumentsWithin source span.start span.stop arguments

/-- The blocks among the arguments stand between two places. -/
def argumentsWithin (source : List Char) (low high : Nat) : List Argument → Prop
  | [] => True
  | a :: rest => a.Within source low high ∧ argumentsWithin source low high rest

/-- The block that the argument may be stands between two places. -/
def Argument.Within (source : List Char) (low high : Nat) : Argument → Prop
  | .valueBlock p => p.Within source low high
  | .block p => p.Within source low high
  | _ => True

end

/-- A text that begins at a place consists of the stretches of some steps, in their order, with separators between
them. -/
inductive Laid : (place : Nat) → (text : List Char) → List Step → Prop where
  | gap {place : Nat} {gap : List Char} (hgap : ∀ x ∈ gap, isSeparator x) : Laid place gap []
  | step {place : Nat} {gap word more : List Char} {s : Step} {rest : List Step} (hgap : ∀ x ∈ gap, isSeparator x)
      (hne : word ≠ []) (hspan : s.span = ⟨place + size gap, place + size gap + size word⟩)
      (hrest : Laid (place + size gap + size word) more rest) : Laid place (gap ++ (word ++ more)) (s :: rest)

variable {source : List Char} {low high place : Nat} {text gap : List Char} {steps : List Step} {s : Step}

theorem InOrder.mono {low' high' : Nat} (h : InOrder source low high steps) (hlow : low' ≤ low)
    (hhigh : high ≤ high') : InOrder source low' high' steps := by
  induction steps generalizing low low' with
  | nil =>
    have hle : low ≤ high := h
    exact Nat.le_trans (Nat.le_trans hlow hle) hhigh
  | cons s rest ih =>
    obtain ⟨hstart, hne, hslice, hrest⟩ := h
    exact ⟨Nat.le_trans hlow hstart, hne, hslice, ih hrest (Nat.le_refl _)⟩

theorem Argument.Within.mono {low' high' : Nat} {a : Argument} (h : a.Within source low high) (hlow : low' ≤ low)
    (hhigh : high ≤ high') : a.Within source low' high' := by
  match a with
  | .valueBlock ⟨_, _, _, _⟩ => exact ⟨h.1.mono hlow hhigh, h.2⟩
  | .block ⟨_, _, _, _⟩ => exact ⟨h.1.mono hlow hhigh, h.2⟩
  | .literal _ => trivial
  | .read _ _ => trivial
  | .variable _ => trivial

theorem argumentsWithin.mono {low' high' : Nat} {as : List Argument} (h : argumentsWithin source low high as)
    (hlow : low' ≤ low) (hhigh : high ≤ high') : argumentsWithin source low' high' as := by
  induction as with
  | nil => trivial
  | cons a rest ih => exact ⟨h.1.mono hlow hhigh, ih h.2⟩

/-- A character of two texts in a row is in the first or in the second. -/
theorem character_in_append {before after first second : List Char} {x : Char}
    (h : first ++ second = before ++ x :: after) :
    (∃ inner, first = before ++ x :: inner) ∨ ∃ inner, before = first ++ inner ∧ second = inner ++ x :: after := by
  rcases List.append_eq_append_iff.mp h with ⟨inner, hbefore, hsecond⟩ | ⟨inner, hfirst, hsecond⟩
  · exact Or.inr ⟨inner, hbefore, hsecond⟩
  · cases inner with
    | nil => exact Or.inr ⟨[], by rw [hfirst, List.append_nil, List.append_nil], hsecond.symm⟩
    | cons y inner =>
      obtain ⟨rfl, -⟩ := List.cons_eq_cons.mp hsecond
      exact Or.inl ⟨inner, hfirst⟩

namespace Laid

/-- A step without a gap in front. -/
theorem front {word more : List Char} (hne : word ≠ []) (hspan : s.span = ⟨place, place + size word⟩)
    (h : Laid (place + size word) more steps) : Laid place (word ++ more) (s :: steps) :=
  .step (fun _ hx => (List.not_mem_nil hx).elim) hne hspan h

/-- More separators in front. -/
theorem behind (hgap : ∀ x ∈ gap, isSeparator x) (h : Laid (place + size gap) text steps) :
    Laid place (gap ++ text) steps := by
  have hall : ∀ more, (∀ x ∈ more, isSeparator x) → ∀ x ∈ gap ++ more, isSeparator x := by
    intro more hmore x hx
    rcases List.mem_append.mp hx with hx | hx
    · exact hgap x hx
    · exact hmore x hx
  cases h with
  | gap hmore => exact .gap (hall _ hmore)
  | step hmore hne hspan hrest =>
    rename_i inner word more s rest
    rw [← List.append_assoc]
    refine .step (hall _ hmore) hne ?_ ?_
    · rw [hspan, Text.size_append, Nat.add_assoc place]
    · rw [Text.size_append, ← Nat.add_assoc place]
      exact hrest

theorem inOrder {before after : List Char} (h : Laid (size before) text steps)
    (hsource : source = before ++ text ++ after) :
    InOrder source (size before) (size before + size text) steps := by
  induction steps generalizing before text with
  | nil => exact Nat.le_add_right _ _
  | cons s rest ih =>
    cases h with
    | step hgap hne hspan hrest =>
      rename_i gap word more
      have hpos : 0 < size word := by
        cases word with
        | nil => exact absurd rfl hne
        | cons x cs =>
          have hx : 0 < x.utf8Size := Char.utf8Size_pos x
          rw [Text.size_cons]
          omega
      have hbehind : size before + size gap + size word = size (before ++ gap ++ word) := by
        rw [Text.size_append, Text.size_append]
      have hslice : slice? (size before + size gap) (size before + size gap + size word) source = some word := by
        have hcut := Text.slice?_size (before ++ gap) word (more ++ after)
        rw [Text.size_append] at hcut
        rw [hsource]
        simpa only [List.append_assoc] using hcut
      have hrest : InOrder source (size (before ++ gap ++ word)) (size (before ++ gap ++ word) + size more) rest := by
        refine ih (hbehind ▸ hrest) ?_
        rw [hsource]
        simp only [List.append_assoc]
      have hend : size before + size (gap ++ (word ++ more)) = size (before ++ gap ++ word) + size more := by
        simp only [Text.size_append]
        omega
      refine ⟨?_, ?_, ?_, ?_⟩
      · rw [hspan]
        exact Nat.le_add_right _ _
      · rw [hspan]
        exact Nat.lt_add_of_pos_right hpos
      · rw [hspan, hslice]
        rfl
      · rw [hspan, hend, hbehind]
        exact hrest

/-- A character over which no step stands is a separator. -/
theorem separator_of_outside {before after : List Char} {x : Char} (h : Laid place text steps)
    (htext : text = before ++ x :: after)
    (hout : ∀ s ∈ steps, ¬ (s.span.start ≤ place + size before ∧ place + size before < s.span.stop)) :
    isSeparator x := by
  induction h generalizing before with
  | gap hgap =>
    refine hgap x ?_
    rw [htext]
    exact List.mem_append_right _ List.mem_cons_self
  | step hgap hne hspan hrest ih =>
    rename_i place gap word more s rest
    have hx : 0 < x.utf8Size := Char.utf8Size_pos x
    rcases character_in_append htext with ⟨inner, rfl⟩ | ⟨inner, rfl, hinner⟩
    · exact hgap x (List.mem_append_right _ List.mem_cons_self)
    · rcases character_in_append hinner with ⟨behind, rfl⟩ | ⟨behind, rfl, hbehind⟩
      · -- the step stands over the character
        refine absurd ?_ (hout s List.mem_cons_self)
        rw [hspan]
        simp only [Text.size_append, Text.size_cons]
        omega
      · refine ih hbehind fun t ht => ?_
        have houtside := hout t (List.mem_cons_of_mem _ ht)
        simp only [Text.size_append] at houtside
        omega

end Laid

/-! ### Readings that cover their text -/

/-- The cursor stands in its source, and its range goes to the end. -/
def Cursor.Placed (c : Cursor) : Prop := ∃ before, c.source.toList = before ++ c.rest ∧ c.offset = size before

theorem Cursor.Passes.placed {c e : Cursor} (h : c.Passes text e) (hc : c.Placed) : e.Placed := by
  obtain ⟨before, hsource, hoffset⟩ := hc
  refine ⟨before ++ text, ?_, ?_⟩
  · rw [h.source, hsource, h.rest, List.append_assoc]
  · rw [h.offset, hoffset, Text.size_append]

theorem Cursor.Passes.offset_le {c e : Cursor} (h : c.Passes text e) : c.offset ≤ e.offset := by
  rw [h.offset]
  exact Nat.le_add_right _ _

/-- What is laid where a cursor stands is in order there. -/
theorem Laid.inOrder_of_passes {c e : Cursor} (h : Laid c.offset text steps) (hpasses : c.Passes text e)
    (hc : c.Placed) : InOrder c.source.toList c.offset e.offset steps := by
  obtain ⟨before, hsource, hoffset⟩ := hc
  have hall : c.source.toList = before ++ text ++ e.rest := by rw [hsource, hpasses.rest, List.append_assoc]
  rw [hpasses.offset, hoffset]
  rw [hoffset] at h
  exact h.inOrder hall

theorem Pipeline.within_iff {p : Pipeline} :
    p.Within source low high ↔ InOrder source low high p.steps ∧ stepsNested source p.steps := by
  obtain ⟨steps, _, _, _⟩ := p
  exact Iff.rfl

namespace Reading

open Cursor (Passes Placed)

variable {d : Directory} {nested : BlockReading} {command : String} {piped : Option ValueType}

/-- From wherever blocks are read, their steps are laid over the text up to a closing mark or the end, and their
own blocks stand inside the steps.  A single command need not be followed by such a mark. -/
def CoversBlocks (nested : BlockReading) : Prop :=
  ∀ c : Cursor, c.Placed → ∀ once piped target, Covers c (nested once piped target) fun text p e =>
    Laid c.offset text p.steps ∧ stepsNested c.source.toList p.steps ∧ (once = false → e.atCloser ∨ e.atEnd)

namespace CoversBlocks

variable (hn : CoversBlocks nested)

include hn

theorem covers_block {c : Cursor} (hc : c.Placed) (piped target : Option ValueType) :
    Covers c (block nested piped target) fun _ p e => p.Within c.source.toList c.offset e.offset := by
  -- wherever the block begins behind `c`, its steps are in order between `c` and its end
  have hwithin : ∀ {before inside : List Char} {f g : Cursor} {p : Pipeline} {high : Nat}, c.Passes before f →
      f.Passes inside g → g.offset ≤ high → Laid f.offset inside p.steps → stepsNested f.source.toList p.steps →
        p.Within c.source.toList c.offset high := by
    intro before inside f g p high hbefore hinside hend hlaid hnested
    have horder : InOrder f.source.toList f.offset g.offset p.steps :=
      hlaid.inOrder_of_passes hinside (hbefore.placed hc)
    rw [hbefore.source] at horder hnested
    exact Pipeline.within_iff.mpr ⟨horder.mono hbefore.offset_le hend, hnested⟩
  refine covers_block_of (fun {before f} hbefore _ => ?_) fun {before f} hbefore _ => ?_
  · have hf : (f.pushCloser '}').Placed := hbefore.placed hc
    refine (hn _ hf false piped target).mono fun inside p g hinside h e hclosed _ => ?_
    have hinside : f.Passes inside { g with closers := f.closers } :=
      ⟨hinside.rest, hinside.offset, hinside.source, hinside.stop, rfl⟩
    exact hwithin hbefore hinside hclosed.offset_le h.1 h.2.1
  · refine (hn f (hbefore.placed hc) true piped target).mono fun inside p e hinside h => ?_
    exact hwithin hbefore hinside (Nat.le_refl _) h.1 h.2.1

theorem covers_argument {c : Cursor} (hc : c.Placed) (p : Parameter) :
    Covers c (argument nested command piped p) fun _ a e => a.Within c.source.toList c.offset e.offset := by
  have hblock : ∀ {space b p high}, c.Passes space b → Pipeline.Within b.source.toList b.offset high p →
      p.Within c.source.toList c.offset high := by
    intro space b p high hspace h
    rw [hspace.source] at h
    obtain ⟨horder, hnested⟩ := Pipeline.within_iff.mp h
    exact Pipeline.within_iff.mpr ⟨horder.mono hspace.offset_le (Nat.le_refl _), hnested⟩
  refine covers_argument_of (fun {text e a} ha _ _ => ?_) (fun _ hspace _ => ?_) (fun _ hspace _ => ?_)
    fun _ _ _ => trivial
  · rcases ha.cases with ⟨v, rfl⟩ | ⟨name, t, rfl⟩ | ⟨name, rfl⟩ <;> trivial
  · exact (hn.covers_block (hspace.placed hc) _ _).mono fun _ q e _ h => hblock hspace h
  · exact (hn.covers_block (hspace.placed hc) _ _).mono fun _ q e _ h => hblock hspace h

theorem covers_arguments {c : Cursor} (hc : c.Placed) (ps : List Parameter) :
    Covers c (arguments nested command piped ps) fun _ r e =>
      argumentsWithin c.source.toList c.offset e.offset r.arguments := by
  induction ps generalizing c with
  | nil => exact .pure trivial
  | cons p ps ih =>
    refine Covers.bind (hn.covers_argument hc p) fun first a e hfirst ha => Covers.look ?_
    refine Covers.bind (ih (hfirst.placed hc)) fun others rest f hothers hrest => .pure ?_
    rw [hfirst.source] at hrest
    rw [Arguments.arguments_cons]
    exact ⟨ha.mono (Nat.le_refl _) hothers.offset_le, hrest.mono hfirst.offset_le (Nat.le_refl _)⟩

/-- A command stands over the text that it is read from, and this is not empty. -/
theorem covers_command {c : Cursor} (hc : c.Placed) :
    Covers c (Reading.command d nested piped c.offset) fun text s _ =>
      text ≠ [] ∧ s.span = ⟨c.offset, c.offset + size text⟩ ∧ s.Nested c.source.toList := by
  refine covers_command_of fun htext hne _ _ _ => ?_
  refine (hn.covers_arguments (htext.placed hc) _).mono fun more read g hmore hread => ?_
  have hall := htext.trans hmore
  have hspan : Span.between c.offset g.offset = ⟨c.offset, g.offset⟩ := by
    unfold Span.between
    rw [Nat.max_eq_right hall.offset_le]
  refine ⟨fun hnil => hne (List.append_eq_nil_iff.mp hnil).1, hspan.trans (by rw [hall.offset]), ?_⟩
  rw [htext.source] at hread
  have hwithin := hread.mono htext.offset_le (Nat.le_refl _)
  exact hspan ▸ hwithin

/-- The steps are laid over the text up to a closing mark or the end. -/
theorem covers_commands {c : Cursor} (hc : c.Placed) (once : Bool) (piped : Option ValueType) :
    Covers c (Reading.commands d nested once piped) fun text r e =>
      (Laid c.offset text r.steps ∧ stepsNested c.source.toList r.steps) ∧
        (once = false → e.atCloser ∨ e.atEnd) := by
  refine covers_commands_of (R := fun c text steps _ => Laid c.offset text steps ∧ stepsNested c.source.toList steps)
    (fun hc h => h.placed hc) (fun hc => hn.covers_command hc) ?_ ?_ hc once piped
  · rintro c e f word gap s - ⟨hne, hspan, hnested⟩ - hgap -
    exact ⟨.front hne hspan (.gap hgap), hnested, trivial⟩
  · rintro c e f g word gap more s rest hword ⟨hne, hspan, hnested⟩ hbetween hgap - ⟨hrest, hothers⟩
    have hbehind := hword.trans hbetween
    rw [hbehind.offset, Text.size_append, ← Nat.add_assoc] at hrest
    rw [hbehind.source] at hothers
    exact ⟨.front hne hspan (hrest.behind hgap), hnested, hothers⟩

/-- A pipeline covers its text, if its blocks do. -/
theorem pipeline : CoversBlocks (pipeline d nested) := by
  intro c hc once piped target
  refine covers_pipeline_of fun hspace hseparators _ => ?_
  refine (hn.covers_commands (hspace.placed hc) once piped).mono fun text read e _ h returns => ?_
  obtain ⟨⟨hlaid, hnested⟩, hend⟩ := h
  rw [hspace.offset] at hlaid
  rw [hspace.source] at hnested
  exact ⟨hlaid.behind hseparators, hnested, hend⟩

end CoversBlocks

theorem coversBlocks_readNested (depth : Nat) : CoversBlocks (readNested d depth) := by
  induction depth with
  | zero => exact fun _ _ _ _ _ => .failure
  | succ depth ih => exact ih.pipeline

end Reading

/-! ### Expressions -/

open Reading

/-- The steps of an expression that has been read are laid over all of its text. -/
theorem Directory.laid_of_read {d : Directory} {source : String} {piped : Option ValueType}
    {known : Ordered.NameMap ValueType} {p : Pipeline} (h : d.read source piped known = .ok p) :
    Laid 0 source.toList p.steps ∧ stepsNested source.toList p.steps := by
  unfold Directory.read at h
  split at h
  · rename_i q e hq
    cases h
    have hplaced : (d.cursor source known).Placed := ⟨[], rfl, rfl⟩
    have hwhole : Covers (d.cursor source known) (whole d piped) fun text p e =>
        Laid 0 text p.steps ∧ stepsNested source.toList p.steps ∧ (false = false → e.atCloser ∨ e.atEnd) :=
      Covers.look (coversBlocks_readNested _ _ hplaced false piped none)
    have hvalue : ((whole d piped).run.run (d.cursor source known)).1 = some p := congrArg Prod.fst hq
    have hcursor : ((whole d piped).run.run (d.cursor source known)).2 = e := congrArg Prod.snd hq
    obtain ⟨text, htext, hlaid, hnested, hend⟩ := hwhole p hvalue
    rw [hcursor] at htext hend
    -- no block is open at the end, so it is the end of the range that was reached, and nothing is left
    have hcloser : e.atCloser = false := by
      unfold Cursor.atCloser
      rw [htext.closers]
      rfl
    have hstop : e.stop ≤ e.offset := by
      rcases hend rfl with h | h
      · rw [hcloser] at h
        cases h
      · exact of_decide_eq_true h
    have hsource : source.toList = text ++ e.rest := htext.rest
    have hsize : size source.toList ≤ 0 + size text := by
      have hoffset : e.offset = 0 + size text := htext.offset
      have hrange : e.stop = size source.toList := htext.stop
      rwa [hoffset, hrange] at hstop
    have hrest : e.rest = [] := by
      apply Text.eq_nil_of_size
      rw [hsource, Text.size_append] at hsize
      omega
    rw [hrest, List.append_nil] at hsource
    rw [hsource]
    exact ⟨hlaid, hsource ▸ hnested⟩
  · cases h

/-- The steps of an expression that has been read stand in its source. -/
theorem Directory.within_of_read {d : Directory} {source : String} {piped : Option ValueType}
    {known : Ordered.NameMap ValueType} {p : Pipeline} (h : d.read source piped known = .ok p) :
    p.Within source.toList 0 (size source.toList) := by
  obtain ⟨hlaid, hnested⟩ := Directory.laid_of_read h
  have hstart : Laid (size []) source.toList p.steps := hlaid
  have hall : source.toList = [] ++ source.toList ++ [] := by rw [List.append_nil, List.nil_append]
  have horder := hstart.inOrder hall
  rw [Text.size_nil, Nat.zero_add] at horder
  exact Pipeline.within_iff.mpr ⟨horder, hnested⟩

/-- Nothing in an expression that has been read is ignored.  Its steps stand in their order in the text, each over
some whole characters; every character over which no step stands is a blank, a semicolon or a bar; and the steps of
each block, at whatever depth, stand in the same order inside the step that the block is for. -/
theorem nothing_is_ignored {d : Directory} {source : String} {piped : Option ValueType}
    {known : Ordered.NameMap ValueType} {p : Pipeline} (h : d.read source piped known = .ok p) :
    p.Within source.toList 0 (size source.toList) ∧
      ∀ before x after, source.toList = before ++ x :: after →
        (∀ s ∈ p.steps, ¬ (s.span.start ≤ size before ∧ size before < s.span.stop)) →
          isBlank x ∨ x = ';' ∨ x = '|' := by
  obtain ⟨hlaid, -⟩ := Directory.laid_of_read h
  refine ⟨Directory.within_of_read h, fun before x after hsource hout => ?_⟩
  have hseparator : isSeparator x = true := by
    refine hlaid.separator_of_outside hsource ?_
    rwa [Nat.zero_add]
  unfold Cursor.isSeparator at hseparator
  rw [Bool.or_eq_true, Bool.or_eq_true, decide_eq_true_eq, decide_eq_true_eq, or_assoc] at hseparator
  exact hseparator

/-- A block in a block, with marks in a row behind it. -/
theorem nothing_is_ignored_nestedBlocks :
    ∃ p, Directory.read Directory.builtin "i 3 | iota| map { + { i 2 } };;  i 7 " none {} = .ok p ∧
      p.steps.map Step.span = [⟨0, 3⟩, ⟨6, 10⟩, ⟨12, 29⟩, ⟨33, 36⟩] ∧
      p.Within "i 3 | iota| map { + { i 2 } };;  i 7 ".toList 0 37 ∧
      ∀ before x after, "i 3 | iota| map { + { i 2 } };;  i 7 ".toList = before ++ x :: after →
        (∀ s ∈ p.steps, ¬ (s.span.start ≤ size before ∧ size before < s.span.stop)) →
          isBlank x ∨ x = ';' ∨ x = '|' := by
  have hchecked : (Directory.read Directory.builtin "i 3 | iota| map { + { i 2 } };;  i 7 " none {}).toOption.any
      (fun p => decide (p.steps.map Step.span = [⟨0, 3⟩, ⟨6, 10⟩, ⟨12, 29⟩, ⟨33, 36⟩])) = true := by decide +kernel
  obtain ⟨p, hread, hspans⟩ := exists_ok_of_any hchecked
  obtain ⟨hwithin, houtside⟩ := nothing_is_ignored hread
  exact ⟨p, hread, of_decide_eq_true hspans, hwithin, houtside⟩

end KeyConsole.Console
