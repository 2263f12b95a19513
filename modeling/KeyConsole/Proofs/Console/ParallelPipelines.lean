import KeyConsole.Proofs.Console.ParallelReadings
import KeyConsole.Proofs.Console.PipelineParts

/-!
# Proofs.Console.ParallelPipelines: one expression read from two spellings

Two spellings of an expression are read as one pipeline, which differs in nothing but its source text.  A reading
that keeps requests is stricter in one place: where the text ends with the name of a command, it waits for more,
even if nothing belongs behind the name.
-/

namespace KeyConsole.Console

open Text (size isBlank)

/-! ### Places where no command begins -/

namespace Cursor

variable {c : Cursor} {x : Char} {test : Char → Bool}

/-- Nothing is skipped in front of a character that fails the test. -/
theorem skip_of_peek (hpeek : c.peek = some x) (hx : test x = false) : c.skip test = c := by
  obtain ⟨rest, hrest⟩ := List.head?_eq_some_iff.mp hpeek
  have hnone : c.upcoming test = [] := by
    unfold Cursor.upcoming
    rw [hrest, List.takeWhile_cons_of_neg (by rw [hx]; exact Bool.false_ne_true)]
  have hall : c.rest.dropWhile test = c.rest := by
    rw [hrest, List.dropWhile_cons_of_neg (by rw [hx]; exact Bool.false_ne_true)]
  unfold Cursor.skip
  rw [hnone, hall]
  rfl

/-- No word begins with a character that is no space and fails the test. -/
theorem word_of_peek (hpeek : c.peek = some x) (hspace : c.isSpace x = false) (hx : test x = false) :
    c.word test = (none, c) := by
  have hstay : c.skipSpace = c := skip_of_peek hpeek hspace
  have hnone : c.upcoming test = [] := by
    obtain ⟨rest, hrest⟩ := List.head?_eq_some_iff.mp hpeek
    unfold Cursor.upcoming
    rw [hrest, List.takeWhile_cons_of_neg (by rw [hx]; exact Bool.false_ne_true)]
  unfold Cursor.word
  dsimp only
  rw [hstay, hnone, skip_of_peek hpeek hx]
  rfl

theorem Ended.eatCloser {bound : Nat} (h : c.Ended bound) : c.eatCloser = (false, c) := by
  have hpeek : c.peek = none := by
    unfold Cursor.peek
    rw [h.rest]
    rfl
  unfold Cursor.eatCloser Cursor.atCloser
  rw [hpeek]
  cases c.closers <;> rfl

theorem Ended.joints {bound : Nat} (hc : c.Ended bound) (t : Option ValueType) : c.joints t = ⟨false, t, c⟩ := by
  have hpeek : c.peek = none := by
    unfold Cursor.peek
    rw [hc.rest]
    rfl
  unfold Cursor.joints Cursor.joint?
  simp [hpeek]

end Cursor

namespace Reading

open Cursor (Alike Ended)
open Respelling

section

variable {c : Cursor} {x : Char} {α : Type} {P : List Char → α → Cursor → Prop} {y : Reading α}

/-- A reading that never yields covers what it likes. -/
theorem Covers.of_yields (h : y.Yields fun _ => False) : Covers c y P := fun a ha => (h c a ha).elim

theorem covers_commandWord_none (hpeek : c.peek = some x) (hspace : c.isSpace x = false)
    (hx : isCommandChar x = false) : Covers c commandWord fun _ word _ => word = none := by
  unfold commandWord
  refine .look (.ite (fun _ => .pure rfl) fun _ => ?_)
  intro word hword
  have hrun : (Reading.step (Cursor.word isCommandChar)).run.run c = (some none, c) := by
    have hnone := Cursor.word_of_peek hpeek hspace hx
    exact congrArg (fun r : Option String × Cursor => (some r.1, r.2)) hnone
  rw [hrun] at hword ⊢
  cases hword
  exact ⟨[], .refl c, rfl⟩

end

variable {ends : Bool} {w : TwoReadings ends} {d : Directory} {nested : BlockReading} {command : String}
  {piped : Option ValueType} {c c' : Cursor} {bound : Nat}

/-- Blocks come out alike, apart from their source; alone comes out only a block whose last command closes the
text. -/
def Mirrors (w : TwoReadings ends) (nested : BlockReading) : Prop :=
  ∀ once piped target c c', Alike w (size w.source.toList) c c' →
    Agree w (size w.source.toList) (fun p p' => p' = p.resourced w.source') (Pipeline.Has (Step.Closes w.source))
      c c' (nested once piped target) (nested once piped target)

/-! ### At the end of the text -/

theorem covers_typeArguments_of_ended (hc : c.Ended bound) (n : Nat) :
    Covers c (typeArguments command n) fun _ ts _ => ts = [] := by
  cases n with
  | zero => exact .pure rfl
  | succ n =>
    have hnone : Covers c (typeArgument command) fun _ _ _ => False := by
      obtain ⟨space, hspace, -⟩ := Cursor.advances_skipSpace c
      have he := (hc.passes hspace.passes).2
      have hword : Covers c.skipSpace (Reading.step (Cursor.word isTypeChar)) fun _ letters _ => letters = none := by
        intro letters hletters
        obtain ⟨text, htext, hfound⟩ := Cursor.advances_word isTypeChar c.skipSpace
        obtain rfl : (c.skipSpace.word isTypeChar).1 = letters := Option.some.inj hletters
        refine ⟨text, htext.passes, Option.not_isSome_iff_eq_none.mp fun hsome => ?_⟩
        exact hfound hsome (he.passes htext.passes).1
      unfold typeArgument
      refine .move hspace.passes (.look (.bind hword fun text letters f _ hletters => ?_))
      subst hletters
      exact .of_yields (.next fun _ => .ite (fun _ => .next fun _ => .refuse) fun _ => .refuse)
    exact .bind hnone fun _ _ _ _ h => h.elim

theorem covers_arguments_of_ended (hc : c.Ended bound) (ps : List Parameter) :
    Covers c (arguments nested command piped ps) fun _ read _ => ps = [] ∧ read.arguments = [] := by
  cases ps with
  | nil => exact .pure ⟨rfl, rfl⟩
  | cons p ps =>
    have hnone : Covers c (argument nested command piped p) fun _ _ _ => False := by
      obtain ⟨space, hspace, -⟩ := Cursor.advances_skipSpace c
      have hend := (hc.passes hspace.passes).2.atEnd
      unfold argument
      refine .move hspace.passes (.get (.of_yields ?_))
      rw [hend, Bool.or_true]
      exact .ite (fun _ => .next fun _ => yields_refuseEnd) fun _ => .ite (fun _ => .refuse) fun hno => absurd rfl hno
    exact .bind hnone fun _ _ _ _ h => h.elim

/-! ### Blocks and arguments -/

section

variable (hn : Mirrors w nested)

include hn

theorem agree_block (h : Alike w (size w.source.toList) c c') (piped target : Option ValueType) :
    Agree w (size w.source.toList) (fun p p' => p' = p.resourced w.source') (Pipeline.Has (Step.Closes w.source))
      c c' (block nested piped target) (block nested piped target) := by
  unfold block
  refine .next .skipSpace h fun _ e e' _ he => .next .offset he fun start e e' _ he =>
    .next (.eat (by decide)) he fun brace e e' _ he => .ite Iff.rfl (fun _ => .moved ?_) fun _ =>
      hn true piped target e e' he
  refine .bind (hn false piped target _ _ he.pushCloser) (fun p p' f f' _ hp hf => .stepped ?_) ?_
  · obtain ⟨hclosed, hbehind⟩ := hf.eatCloser
    rw [hclosed]
    exact .ite Iff.rfl (fun _ => .pure hp hbehind) fun _ => .fails (.next fun _ => .refuse) (.next fun _ => .refuse)
  · -- a block that the text ends in is not closed
    intro p f _ hf _ q hq
    have hopen : ∀ k : Bool → Reading Pipeline,
        (Reading.step Cursor.eatCloser >>= k).run.run f = (k false).run.run f := by
      intro k
      have hrun : (Reading.step Cursor.eatCloser >>= k).run.run f
          = (k f.eatCloser.1).run.run f.eatCloser.2 := rfl
      rw [hrun, hf.eatCloser]
    rw [hopen] at hq
    cases hq

theorem agree_argument (h : Alike w (size w.source.toList) c c') (p : Parameter) :
    Agree w (size w.source.toList) (fun a a' => a' = a.resourced w.source') (Argument.Has (Step.Closes w.source))
      c c' (argument nested command piped p) (argument nested command piped p) := by
  unfold argument
  refine .next .skipSpace h fun _ e e' _ he => .got ?_
  by_cases hend : e.atEnd = true
  · -- both refuse at the end, each with its own fault
    rw [he.atEnd, hend]
    refine .fails ?_ ?_ <;> refine .ite (fun _ => .next fun _ => yields_refuseEnd) fun _ => .ite (fun _ => .refuse) ?_
    · intro hno
      exact absurd (Bool.or_true _) hno
    · intro hno
      exact absurd (Bool.or_true _) hno
  rw [he.atEnd, he.atCommandEnd, eq_false_of_ne_true hend, Bool.false_and, Bool.false_and]
  refine .ite Iff.rfl (fun hno => absurd hno Bool.false_ne_true) fun _ =>
    .ite Iff.rfl (fun _ => .fails .refuse .refuse) fun _ => ?_
  cases p.kind with
  | value t =>
    have hdollar : e'.peek = some '$' ↔ e.peek = some '$' := he.peek_eq_iff (by decide)
    have hbrace : e'.peek = some '\x7b' ↔ e.peek = some '\x7b' := he.peek_eq_iff (by decide)
    dsimp only
    split
    · rename_i hpeek
      rw [hdollar.mpr hpeek]
      exact .next (steady_variableName _) he fun name f f' _ hf => .pure rfl hf
    · rename_i hpeek
      rw [hbrace.mpr hpeek]
      refine .bind (agree_block hn he none (some t)) (fun b b' f f' _ hb hf => ?_) fun b f _ _ hb => .pure hb
      subst hb
      exact .pure rfl hf
    · rename_i hno hno'
      split
      · rename_i hpeek
        exact absurd (hdollar.mp hpeek) hno
      · rename_i hpeek
        exact absurd (hbrace.mp hpeek) hno'
      · exact .next (steady_literal t) he fun v f f' _ hf => .pure rfl hf
  | block feed output =>
    refine .bind (agree_block hn he (feed.type piped) output) (fun b b' f f' _ hb hf => ?_) fun b f _ _ hb => .pure hb
    subst hb
    exact .pure rfl hf
  | assign =>
    refine .next (steady_variableName _) he fun name f f' _ hf => .moved ?_
    exact .pure rfl (hf.declare _ _)
  | «variable» => exact .next (steady_variableName _) he fun name f f' _ hf => .pure rfl hf

end

/-- The arguments with another source text for their blocks. -/
def Arguments.resourced (source : String) (read : Arguments) : Arguments :=
  { read with arguments := argumentsResourced source read.arguments }

theorem Arguments.resourced_cons (p : Parameter) (known : Ordered.NameMap ValueType) (a : Argument)
    (rest : Arguments) : (rest.cons p piped known a).resourced source
      = (rest.resourced source).cons p piped known (a.resourced source) := by
  unfold Arguments.cons Arguments.resourced
  cases p.kind <;> cases a <;> simp [argumentsResourced, Argument.resourced]

section

variable (hn : Mirrors w nested)

include hn

theorem agree_arguments (h : Alike w (size w.source.toList) c c') (ps : List Parameter) :
    Agree w (size w.source.toList) (fun r r' => r' = r.resourced w.source')
      (fun r => argumentsHave (Step.Closes w.source) r.arguments) c c'
      (arguments nested command piped ps) (arguments nested command piped ps) := by
  induction ps generalizing c c' with
  | nil => exact .pure rfl h
  | cons p ps ih =>
    unfold arguments
    refine .bind (agree_argument hn h p) (fun a a' e e' _ ha he => .looked ?_) fun a e _ he ha => .look ?_
    · rw [he.known]
      refine .bind (ih he) (fun r r' f f' _ hr hf => .pure ?_ hf) fun r f _ _ hr => .pure ?_
      · rw [ha, hr, Arguments.resourced_cons]
      · rw [Arguments.arguments_cons]
        exact Or.inr hr
    · refine .bind (covers_arguments_of_ended he ps) fun _ r _ _ _ => .pure ?_
      rw [Arguments.arguments_cons]
      exact Or.inl ha

end

/-! ### Names of commands -/

theorem covers_commandWord_name (c : Cursor) :
    Covers c commandWord fun text word _ => ∀ name, word = some name → ∃ space, text = space ++ name.toList := by
  unfold commandWord
  refine .look (.ite (fun _ => .pure fun name h => by cases h) fun _ => ?_)
  intro word hword
  obtain rfl : (c.word isCommandChar).1 = word := Option.some.inj hword
  obtain ⟨space, hspace, -⟩ := Cursor.advances_skipSpace c
  refine ⟨_, (hspace.trans (Cursor.advances_skip isCommandChar c.skipSpace)).passes, fun name hname => ⟨space, ?_⟩⟩
  unfold Cursor.word at hname
  dsimp only at hname
  split at hname
  · cases hname
  · rw [← Option.some.inj hname, String.toList_ofList]

theorem covers_subcommand (command : Command) (piped : Option ValueType) (c : Cursor) :
    Covers c (subcommand command piped) fun text sub _ => text = ':' :: sub.toList := by
  have hcolon : Covers c (Reading.eat ':') fun text colon _ => colon = true → text = [':'] := by
    intro colon hcolon
    obtain rfl : (c.eat ':').1 = colon := Option.some.inj hcolon
    have hrun : ((Reading.eat ':').run.run c).2 = (c.eat ':').2 := rfl
    rw [hrun]
    unfold Cursor.eat
    split
    · rename_i hpeek
      exact ⟨[':'], (Cursor.advances_next_of_peek hpeek).passes, fun _ => rfl⟩
    · exact ⟨[], .refl c, fun h => by cases h⟩
  unfold subcommand
  refine .bind hcolon fun mark colon e _ hmark => .ite (fun hfound => ?_) fun _ => ?_
  · obtain rfl := hmark hfound
    refine .look (.look (.move (Cursor.advances_skip isCommandChar e).passes (.look ?_)))
    extract_lets behind
    have hbehind : ∀ u f, Covers f (behind u) fun text name _ =>
        text = [] ∧ name = String.ofList (e.upcoming isCommandChar) := by
      intro u f
      refine .ite (fun _ => .refuse) fun _ => .ite (fun _ => ?_) fun _ => .look (.ite (fun _ => ?_) fun _ => ?_)
      · exact .next (passing_spanFrom _) fun _ _ _ _ => .refuse
      · exact .of_yields yields_refuseEnd
      · exact .pure ⟨rfl, rfl⟩
    have hname : ∀ text name, text = [] ∧ name = String.ofList (e.upcoming isCommandChar) →
        [':'] ++ (e.upcoming isCommandChar ++ text) = ':' :: name.toList := by
      rintro text name ⟨rfl, rfl⟩
      rw [String.toList_ofList, List.append_nil]
      rfl
    refine .ite (fun _ => ?_) fun _ => (hbehind () _).mono fun text name _ _ h => hname text name h
    exact .move (Cursor.passes_offer _ _) ((hbehind () _).mono fun text name _ _ h => hname text name h)
  · refine .of_yields (.next fun _ => .next fun _ => .ite (fun _ => ?_) fun _ => .refuse)
    exact .next fun _ => yields_refuseEnd

theorem steady_commandWord : Steady w commandWord := by
  unfold commandWord
  refine .next (.looked fun _ _ _ h => h.any_peek overlooked_isDigit) fun digit => .ite .pure ?_
  exact .word overlooked_isCommandChar

/-- The reading that keeps requests waits behind a subcommand that the text ends with. -/
theorem agree_subcommand (h : Alike w bound c c') (command : Command) (piped : Option ValueType) :
    Agree w bound Eq (fun _ => True) c c' (subcommand command piped) (subcommand command piped) := by
  unfold subcommand
  refine .next (.eat (by decide)) h fun colon e e' _ he => .ite Iff.rfl (fun _ => ?_) fun _ => ?_
  · refine .next .offset he fun start e e' _ he => .next (.upcoming overlooked_isCommandChar) he fun letters e e' _ he =>
      .next (.skip overlooked_isCommandChar) he fun _ e e' _ he => .looked ?_
    rw [he.atEnd]
    extract_lets behind
    have hbehind : ∀ u f f', Alike w bound f f' → (e.atEnd = true → f.Ended bound) →
        Agree w bound Eq (fun _ => True) f f' (behind u) (behind u) := by
      intro u f f' hf hend
      refine .ite Iff.rfl (fun _ => .fails .refuse .refuse) fun _ => .ite Iff.rfl (fun _ => ?_) fun _ => .looked ?_
      · exact .fails (.next fun _ => .refuse) (.next fun _ => .refuse)
      · rw [hf.plain, hf.completing', Bool.false_and, if_neg Bool.false_ne_true]
        by_cases hwait : (w.completing && e.atEnd) = true
        · obtain ⟨hw, hended⟩ := (Bool.and_eq_true _ _).mp hwait
          rw [if_pos hwait]
          exact .alone hw (hend hended) (.pure trivial) yields_refuseEnd
        · rw [if_neg hwait]
          exact .pure rfl hf
    refine .ite Iff.rfl (fun hended => .moved ?_) fun hopen => hbehind () e e' he fun hended => absurd hended hopen
    exact hbehind () _ _ (he.offer _ _) fun hended => ((he.ended hended).passes (Cursor.passes_offer _ e)).2
  · refine .mono (?_ : Agree w bound Eq (fun _ => False) e e' _ _) (fun _ _ h => h) fun _ h => h.elim
    exact .next .offset he fun here e e' _ he => .next .atEnd he fun ended e e' _ he =>
      .ite Iff.rfl (fun _ => .fails (.next fun _ => yields_refuseEnd) (.next fun _ => yields_refuseEnd)) fun _ =>
        .fails .refuse .refuse

/-- In front of a semicolon `not` is a word like any other. -/
theorem covers_commandWord_not {more : List Char} (hrest : c.rest = "not".toList ++ ';' :: more) :
    Covers c commandWord fun _ word _ => word = some "not" := by
  have hpeek : c.peek = some 'n' := by
    unfold Cursor.peek
    rw [hrest]
    rfl
  have hspace : c.skipSpace = c := Cursor.skip_of_peek hpeek (by rfl)
  have hletters : c.upcoming isCommandChar = "not".toList := by
    have hall : ∀ x ∈ "not".toList, isCommandChar x = true := List.all_eq_true.mp (by decide)
    unfold Cursor.upcoming
    rw [hrest, List.takeWhile_append_of_pos hall, List.takeWhile_cons_of_neg (by decide), List.append_nil]
  have hword : (c.word isCommandChar).1 = some "not" := by
    unfold Cursor.word
    dsimp only
    rw [hspace, hletters]
    rfl
  unfold commandWord
  refine .look (.ite (fun hdigit => ?_) fun _ word hfound => ?_)
  · rw [hpeek] at hdigit
    exact absurd hdigit (by decide)
  · obtain rfl : (c.word isCommandChar).1 = word := Option.some.inj hfound
    obtain ⟨text, htext, -⟩ := Cursor.advances_word isCommandChar c
    exact ⟨text, htext.passes, hword⟩

/-! ### Heads of commands -/

/-- The text ends with the name of the command, behind which there are no type arguments. -/
structure Head.Closes (source : String) (h : Head) : Prop where
  types : h.types = []
  name : (Command.fullName h.name h.subcommand).toList <:+ source.toList

section

variable {nameStart : Nat} {inverted : Bool} {name : String} {registered : Command}

theorem yields_headBehindName_unknown (hget : d.get? name = none) {P : Head → Prop} :
    (headBehindName d piped nameStart inverted name).Yields P := by
  unfold headBehindName
  rw [hget]
  refine .next fun _ => .ite (fun _ => .next fun _ => ?_) fun _ => ?_
  · exact .next fun _ => .refuse
  · exact .next fun _ => .refuse

/-- No command begins with a character that is no space and belongs to no name. -/
theorem covers_headBehindNot_none {x : Char} (hpeek : c.peek = some x) (hspace : c.isSpace x = false)
    (hx : isCommandChar x = false) : Covers c (headBehindNot d piped inverted) fun _ _ _ => False := by
  have hstay : c.skipSpace = c := Cursor.skip_of_peek hpeek hspace
  have hpassed : c.Passes [] c.skipSpace := by
    rw [hstay]
    exact .refl c
  unfold headBehindNot
  refine .move hpassed (.look ?_)
  rw [hstay]
  refine .bind (covers_commandWord_none hpeek hspace hx) fun _ word _ _ hword => ?_
  rw [hword]
  exact .of_yields yields_refuseCommand

/-- No command begins with a closing brace. -/
theorem covers_commandHead_brace (hpeek : c.peek = some '\x7d') :
    Covers c (commandHead d piped) fun _ _ _ => False := by
  have hspace : c.isSpace '\x7d' = false := by rfl
  have hstay : c.skipSpace = c := Cursor.skip_of_peek hpeek hspace
  have hpassed : c.Passes [] c.skipSpace := by
    rw [hstay]
    exact .refl c
  have hword : c.eatWord "not" = (false, c) := by
    rw [Cursor.eatWord_eq, if_neg]
    rintro ⟨hletters, -⟩
    obtain ⟨rest, hrest⟩ := List.head?_eq_some_iff.mp hpeek
    rw [hstay] at hletters
    unfold Cursor.upcoming at hletters
    rw [hrest, List.takeWhile_cons_of_pos (by decide)] at hletters
    exact absurd (List.cons_eq_cons.mp hletters).1 (by decide)
  have hfound : Covers c (Reading.step (Cursor.eatWord "not")) fun _ _ e => e = c := by
    intro found _
    have hrun : (Reading.step (Cursor.eatWord "not")).run.run c = (some false, c) :=
      congrArg (fun r : Bool × Cursor => (some r.1, r.2)) hword
    rw [hrun]
    exact ⟨[], .refl c, rfl⟩
  unfold commandHead
  refine .move hpassed ?_
  rw [hstay]
  refine .bind hfound fun _ _ e _ he => ?_
  rw [he]
  exact covers_headBehindNot_none hpeek hspace (by decide)

/-- Where the text ends behind the name of a command, no types follow. -/
theorem covers_headBehindSubcommand_of_ended {source : String} {sub : Option String}
    (hc : c.Ended (size source.toList)) (hname : (Command.fullName name sub).toList <:+ source.toList) :
    Covers c (headBehindSubcommand d piped nameStart inverted name registered sub) fun _ h _ => h.Closes source := by
  unfold headBehindSubcommand headTypes
  refine .look (.ite (fun _ => .of_yields (.next fun _ => yields_refuseEnd)) fun _ =>
    .bind (covers_typeArguments_of_ended hc _) fun _ types e _ hnone => ?_)
  unfold headSignature
  split
  · exact .of_yields (.next fun _ => .refuse)
  · exact .pure ⟨hnone, hname⟩

theorem agree_headBehindSubcommand {sub : Option String} (h : Alike w (size w.source.toList) c c')
    (hname : sub = none → c.rest = [] → name.toList <:+ w.source.toList) :
    Agree w (size w.source.toList) Eq (Head.Closes w.source) c c'
      (headBehindSubcommand d piped nameStart inverted name registered sub)
      (headBehindSubcommand d piped nameStart inverted name registered sub) := by
  have hplain : ¬ (sub.isNone && (c.completing && c.atEnd)) = true := by
    rw [h.plain, Bool.false_and, Bool.and_false]
    exact Bool.false_ne_true
  unfold headBehindSubcommand
  refine .looked ?_
  rw [h.completing', h.atEnd]
  by_cases hwait : (sub.isNone && (w.completing && c.atEnd)) = true
  · -- one reading waits for more behind the name, and the other goes on
    obtain ⟨hnone, hw, hend⟩ : sub.isNone = true ∧ w.completing = true ∧ c.atEnd = true := by
      simpa only [Bool.and_eq_true] using hwait
    obtain rfl := Option.isNone_iff_eq_none.mp hnone
    have hended := h.ended hend
    have hclosing : Covers c (headBehindSubcommand d piped nameStart inverted name registered none) fun _ h _ =>
        h.Closes w.source := covers_headBehindSubcommand_of_ended hended (hname rfl hended.rest)
    unfold headBehindSubcommand at hclosing
    rw [if_pos hwait]
    exact .alone hw hended hclosing (.next fun _ => yields_refuseEnd)
  · rw [if_neg hwait, if_neg hplain]
    unfold headTypes headSignature
    refine .next (steady_typeArguments _ _) h fun types e e' _ he => ?_
    cases registered.resolve? sub piped types.length with
    | none => exact .fails (.next fun _ => .refuse) (.next fun _ => .refuse)
    | some signature => exact .pure rfl he

/-- The name of the command stands in front of the cursors. -/
theorem agree_headBehindName {before : List Char} (h : Alike w (size w.source.toList) c c')
    (hsource : w.source.toList = before ++ (name.toList ++ c.rest)) :
    Agree w (size w.source.toList) Eq (Head.Closes w.source) c c' (headBehindName d piped nameStart inverted name)
      (headBehindName d piped nameStart inverted name) := by
  cases hget : d.get? name with
  | none => exact .fails (yields_headBehindName_unknown hget) (yields_headBehindName_unknown hget)
  | some registered =>
    have hsub : Covers c (some <$> subcommand registered piped) fun text sub _ =>
        ∃ letters, sub = some letters ∧ text = ':' :: letters.toList :=
      .bind (covers_subcommand registered piped c) fun text letters _ _ htext =>
        .pure ⟨letters, rfl, by rw [List.append_nil, htext]⟩
    have hagree : Agree w (size w.source.toList) Eq (fun _ => True) c c'
        (some <$> subcommand registered piped) (some <$> subcommand registered piped) :=
      .bind (agree_subcommand h registered piped) (fun a a' _ _ _ ha he => .pure (congrArg some ha) he)
        fun _ _ _ _ _ => .pure trivial
    unfold headBehindName
    rw [hget]
    refine .ite Iff.rfl (fun _ => .bind hagree (fun sub sub' e e' hrun hsubs he => ?_) fun sub e hrun he _ => ?_)
      fun _ => agree_headBehindSubcommand h fun _ hrest => ⟨before, ?_⟩
    · subst hsubs
      obtain ⟨text, -, letters, rfl, -⟩ := hsub sub (by rw [hrun])
      exact agree_headBehindSubcommand he fun hnone => by cases hnone
    · obtain ⟨text, htext, letters, rfl, hletters⟩ := hsub sub (by rw [hrun])
      rw [hrun] at htext
      refine covers_headBehindSubcommand_of_ended he ⟨before, ?_⟩
      have hrest := htext.rest
      rw [he.rest, List.append_nil, hletters] at hrest
      rw [hsource, hrest]
      simp [Command.fullName, String.toList_append]
    · rw [hsource, hrest, List.append_nil]

theorem agree_headBehindNot (h : Alike w (size w.source.toList) c c') :
    Agree w (size w.source.toList) Eq (Head.Closes w.source) c c' (headBehindNot d piped inverted)
      (headBehindNot d piped inverted) := by
  unfold headBehindNot
  refine .next .skipSpace h fun _ e e' _ he => .next .offset he fun nameStart e e' _ he =>
    .next steady_commandWord he fun word f f' hword hf => ?_
  cases word with
  | none => exact .fails yields_refuseCommand yields_refuseCommand
  | some name =>
    obtain ⟨text, htext, hspace⟩ := covers_commandWord_name e (some name) (by rw [hword])
    obtain ⟨space, rfl⟩ := hspace name rfl
    obtain ⟨before, after, hsource, hoffset, hstop⟩ := he.placed
    have hafter : after = [] := by
      refine Text.eq_nil_of_size ?_
      rw [hsource, Text.size_append, Text.size_append, hoffset] at hstop
      omega
    have hname : w.source.toList = (before ++ space) ++ (name.toList ++ f.rest) := by
      rw [hword] at htext
      rw [hsource, hafter, htext.rest]
      simp only [List.append_assoc, List.append_nil]
    exact agree_headBehindName hf hname

end

theorem agree_commandHead (hnot : w.char '\n' = ';' → d.get? "not" = none) (h : Alike w (size w.source.toList) c c') :
    Agree w (size w.source.toList) Eq (Head.Closes w.source) c c' (commandHead d piped) (commandHead d piped) := by
  unfold commandHead
  refine .next .skipSpace h fun _ e e' _ he => .stepped ?_
  rcases he.eatWord "not" (by decide) with
    ⟨hfound, hbehind⟩ | ⟨hends, hspelled, -, hnewline, hmissed, more, hrest⟩
  · rw [hfound]
    exact agree_headBehindNot hbehind
  · -- behind the `not` the first text has a newline, and no command; in the second it is no `not`
    refine .neither ?_ ?_
    · obtain ⟨text, htext⟩ := Cursor.advances_eatWord "not" e
      have hspace : (e.eatWord "not").2.isSpace '\n' = false := by
        unfold Cursor.isSpace
        rw [htext.newlineEnds, he.newlineEnds, hends]
        rfl
      exact covers_headBehindNot_none hnewline hspace (by decide)
    · obtain ⟨space, hspace, -⟩ := Cursor.advances_skipSpace e'
      rw [hmissed]
      refine .move hspace.passes (.look (.bind (covers_commandWord_not hrest) fun _ word _ _ hword => ?_))
      rw [hword]
      exact .of_yields (yields_headBehindName_unknown (hnot hspelled))

/-! ### Commands -/

section

variable (hn : Mirrors w nested) (hnot : w.char '\n' = ';' → d.get? "not" = none)

include hn hnot

theorem agree_command (h : Alike w (size w.source.toList) c c') :
    Agree w (size w.source.toList) (fun s s' => s' = s.resourced w.source') (Step.Has (Step.Closes w.source)) c c'
      (Reading.command d nested piped c.offset) (Reading.command d nested piped c.offset) := by
  have hstart : c.offset ≤ size w.source.toList := by
    obtain ⟨-, -, -, -, hstop⟩ := h.placed
    rw [hstop]
    exact Nat.le_add_right _ _
  generalize c.offset = start at hstart
  unfold Reading.command Head.finish
  refine .bind (agree_commandHead hnot h) (fun head head' e e' _ hsame he => ?_) fun head e _ he hcloses => ?_
  · subst hsame
    refine .bind (agree_arguments hn he head.signature.parameters) (fun read read' f f' _ hread hf =>
      .next (steady_spanFrom start) hf fun span g g' _ hg => .pure ?_ hg) fun read f _ _ hread => ?_
    · subst hread
      rfl
    · exact .next (passing_spanFrom start) fun _ _ _ _ => .pure (Or.inr hread)
  · -- the text ends with the head
    refine .bind (covers_arguments_of_ended he head.signature.parameters) fun _ read f hread hparameters =>
      .look (.pure ?_)
    have hoffset := (he.passes hread).2.offset
    have hstop : max start f.offset = size w.source.toList := by rw [hoffset, Nat.max_eq_right hstart]
    exact Or.inl ⟨hcloses.types, hparameters.1, hstop, hcloses.name⟩

end

/-! ### Pipelines -/

/-- The steps with another source text for their blocks. -/
def Steps.resourced (source : String) (read : Steps) : Steps := { read with steps := stepsResourced source read.steps }

/-- Behind a bar the closing brace of a block is no command. -/
theorem covers_steps_brace {once : Bool} {n : Nat} (hpeek : c.peek = some '\x7d') :
    Covers c (Reading.steps d nested once n piped) fun _ _ _ => False := by
  cases n with
  | zero => exact .failure
  | succ n =>
    have hcommand : Covers c (Reading.command d nested piped c.offset) fun _ _ _ => False :=
      .bind (covers_commandHead_brace hpeek) fun _ _ _ _ h => h.elim
    exact .look (.bind hcommand fun _ _ _ _ h => h.elim)

section

variable (hn : Mirrors w nested) (hnot : w.char '\n' = ';' → d.get? "not" = none)

include hn hnot

theorem agree_row {once : Bool} {rest : Option ValueType → Reading Steps}
    (hrest : ∀ {c c' : Cursor} piped, Alike w (size w.source.toList) c c' →
      Agree w (size w.source.toList) (fun r r' => r' = r.resourced w.source')
        (fun r => stepsHave (Step.Closes w.source) r.steps) c c' (rest piped) (rest piped))
    (hbrace : ∀ {c : Cursor} {piped}, c.peek = some '\x7d' → Covers c (rest piped) fun _ _ _ => False)
    (piped : Option ValueType) (h : Alike w (size w.source.toList) c c') :
    Agree w (size w.source.toList) (fun r r' => r' = r.resourced w.source')
      (fun r => stepsHave (Step.Closes w.source) r.steps) c c'
      (row d nested once rest piped) (row d nested once rest piped) := by
  unfold row
  refine .looked ?_
  rw [h.offset]
  refine .bind (agree_command hn hnot h) (fun s s' e e' _ hs he => ?_) fun s e _ he hs => ?_
  · subst hs
    rw [Step.returns_resourced]
    refine .ite Iff.rfl (fun _ => .pure rfl he) fun _ => .looked (.next .skipSpace he fun _ f f' _ hf => .looked ?_)
    have hjoints := hf.joints (some s.returns)
    generalize f.joints (some s.returns) = j at hjoints
    generalize f'.joints (some s.returns) = j' at hjoints
    obtain ⟨hexpected, hpiped, hafter⟩ := hjoints
    refine .set (.got ?_)
    rw [hafter.atCloser, hexpected, hafter.atEnd, hafter.plain, hafter.completing', he.offset, hafter.offset, hpiped]
    refine .ite Iff.rfl (fun _ => .pure rfl hafter) fun hopen => ?_
    by_cases hclosed : j.after.atCloser = true
    · -- a bar stands in front of a closing brace: one reading refuses it, the other finds no command there
      have hpeek := hafter.peek_of_atCloser hclosed
      have hpeek' : j'.after.peek = some '\x7d' := (hafter.peek_eq_iff (by decide)).mpr hpeek
      have hinside : j.after.atEnd = false := by
        refine eq_false_of_ne_true fun hend => ?_
        unfold Cursor.peek at hpeek
        rw [hafter.rest_of_atEnd hend] at hpeek
        cases hpeek
      rw [hclosed, hinside]
      refine .neither (.ite (fun _ => .refuse) fun hno => absurd rfl hno) (.ite (fun _ => .refuse) fun _ => ?_)
      refine .ite (fun hend => absurd hend Bool.false_ne_true) fun _ => .ite (fun hend => absurd hend Bool.false_ne_true)
        fun _ => .ite (fun _ => .refuse) fun _ => ?_
      exact .bind (hbrace hpeek') fun _ _ _ _ h => h.elim
    · rw [eq_false_of_ne_true hclosed]
      refine .ite Iff.rfl (fun hno => absurd hno Bool.false_ne_true) fun _ => .ite Iff.rfl (fun _ => ?_) fun _ =>
        .ite Iff.rfl (fun _ => ?_) fun _ => .ite Iff.rfl (fun _ => .fails .refuse .refuse) fun _ => ?_
      · exact .fails (.next fun _ => yields_refuseEnd) (.next fun _ => yields_refuseEnd)
      · exact .ite Iff.rfl (fun _ => .moved (.pure rfl (hafter.offer _ _))) fun _ => .pure rfl hafter
      · refine .bind (hrest j.piped hafter) (fun r r' g g' _ hr hg => .pure ?_ hg) fun r g _ _ hr => .pure (Or.inr hr)
        subst hr
        rfl
  · -- the text ends with the command
    obtain ⟨space, hspace, -⟩ := Cursor.advances_skipSpace e
    have hf := (he.passes hspace.passes).2
    refine .ite (fun _ => .pure (Or.inl hs)) fun _ => .look (.move hspace.passes (.look ?_))
    rw [hf.joints]
    refine .set (.refl _) (.get (.ite (fun _ => .pure (Or.inl hs)) fun _ => .ite (fun _ => .refuse) fun _ =>
      .ite (fun _ => .of_yields (.next fun _ => yields_refuseEnd)) fun _ => .ite (fun _ => ?_) fun hno =>
        absurd hf.atEnd hno))
    exact .ite (fun _ => .next (.offer _) fun _ _ _ _ => .pure (Or.inl hs)) fun _ => .pure (Or.inl hs)

theorem agree_commands (once : Bool) (piped : Option ValueType) (h : Alike w (size w.source.toList) c c') :
    Agree w (size w.source.toList) (fun r r' => r' = r.resourced w.source')
      (fun r => stepsHave (Step.Closes w.source) r.steps) c c'
      (commands d nested once piped) (commands d nested once piped) := by
  refine .looked ?_
  rw [h.length_rest]
  generalize c.rest.length + 1 = n
  induction n generalizing c c' piped with
  | zero => exact .fails .failure .failure
  | succ n ih => exact agree_row hn hnot (fun piped h => ih piped h) covers_steps_brace piped h

theorem mirrors_pipeline : Mirrors w (pipeline d nested) := by
  intro once piped target c c' h
  unfold pipeline
  refine .next .skipSpace h fun _ e e' _ he => .next .offset he fun start e e' _ he =>
    .next (.looked fun _ _ _ h => h.atCloser) he fun closed e e' _ he => ?_
  extract_lets behind
  have hbehind : ∀ u, Agree w (size w.source.toList) (fun p p' => p' = p.resourced w.source')
      (Pipeline.Has (Step.Closes w.source)) e e' (behind u) (behind u) := by
    intro u
    refine .bind (agree_commands hn hnot once piped he) (fun read read' f f' _ hread hf => ?_)
      fun read f _ hf hread => ?_
    · subst hread
      have hreturns : (read.resourced w.source').steps.getLast?.elim .void Step.returns
          = read.steps.getLast?.elim .void Step.returns := by
        unfold Steps.resourced
        rw [stepsResourced_eq_map, List.getLast?_map]
        cases read.steps.getLast? with
        | none => rfl
        | some s => exact Step.returns_resourced s
      rw [hreturns]
      extract_lets returns
      refine .ite Iff.rfl (fun _ => .looked ?_) fun _ => .fails (.next fun _ => .refuse) (.next fun _ => .refuse)
      rw [hf.source, hf.source']
      exact .pure rfl hf
    · refine .ite (fun _ => .look (.pure hread)) fun _ => .of_yields (.next fun _ => .refuse)
  exact .ite Iff.rfl (fun _ => .fails (.bind (P := fun _ => False) .refuse fun _ h => h.elim)
    (.bind (P := fun _ => False) .refuse fun _ h => h.elim)) fun _ =>
    hbehind ()

end

theorem mirrors_readNested (hnot : w.char '\n' = ';' → d.get? "not" = none) (depth : Nat) :
    Mirrors w (readNested d depth) := by
  induction depth with
  | zero => exact fun _ _ _ _ _ _ => .fails .failure .failure
  | succ depth ih => exact mirrors_pipeline ih hnot

/-- Whole expressions are read alike from two spellings of a text. -/
theorem agree_whole (hnot : w.char '\n' = ';' → d.get? "not" = none) (h : Alike w (size w.source.toList) c c')
    (piped : Option ValueType) :
    Agree w (size w.source.toList) (fun p p' => p' = p.resourced w.source') (Pipeline.Has (Step.Closes w.source)) c c'
      (whole d piped) (whole d piped) := by
  unfold whole
  refine .looked ?_
  rw [h.length_rest]
  exact mirrors_readNested hnot _ false piped none c c' h

end Reading

end KeyConsole.Console
