import KeyConsole.Proofs.Console.Canonical.ReadBack
import KeyConsole.Proofs.Console.Explanations

/-!
# Proofs.Console.CommandHeads: what is read of a command before its arguments

The head of a command is its name, with the subcommand and the type arguments.  These pick the signature, which says
what arguments follow.  A head is read just if the directory has such a command and one of its signatures takes what is
piped; else the fault says what is missing.
-/

namespace KeyConsole.Console

open Ordered (NameMap)
open Text (isBlank)

namespace Reading

/-! ### Readings that are refused -/

variable {α β : Type} {x : Reading α} {k : α → Reading β} {c e : Cursor} {cause : Cause}

/-- From the cursor on the reading fails, and the fault that is left has this cause. -/
def Refuses (c : Cursor) (x : Reading α) (cause : Cause) : Prop :=
  (x.run.run c).1 = none ∧ (x.run.run c).2.fault.map Fault.cause = some cause

namespace Refuses

theorem refuse {span : Span} (hc : c.fault = none) : Refuses c (Reading.refuse cause span : Reading α) cause := by
  refine ⟨rfl, ?_⟩
  have hblame : (c.blame cause span).fault = some { cause, source := some c.source, span := some span } := by
    unfold Cursor.blame Cursor.keepFault
    rw [hc]
    rfl
  exact congrArg (Option.map Fault.cause) hblame

theorem look {f : Cursor → α} (hk : Refuses c (k (f c)) cause) : Refuses c (Reading.look f >>= k) cause := hk

theorem move {f : Cursor → Cursor} {k : Unit → Reading β} (hk : Refuses (f c) (k ()) cause) :
    Refuses c (Reading.move f >>= k) cause := hk

theorem step {f : Cursor → α × Cursor} (hk : Refuses (f c).2 (k (f c).1) cause) :
    Refuses c (Reading.step f >>= k) cause := hk

/-- Where something is offered at the end of a text, the cursor stays. -/
theorem offering {closers : List Char} {known : NameMap ValueType} {text : List Char} {request : Request} {p : Prop}
    [Decidable p] {k : Unit → Reading β} (h : c.Faces closers known text) (hk : Refuses c (k ()) cause) :
    Refuses c (if p then Reading.move (·.offer request) >>= k else k ()) cause := by
  split
  · refine move ?_
    rw [h.offer]
    exact hk
  · exact hk

/-- What is refused is not gone on with. -/
theorem first (hx : Refuses c x cause) : Refuses c (x >>= k) cause := by
  unfold Refuses
  rw [run_bind_none hx.1]
  exact ⟨rfl, hx.2⟩

theorem of_run_eq {y : Reading α} (h : x.run.run c = y.run.run e) (hy : Refuses e y cause) : Refuses c x cause := by
  unfold Refuses
  rw [h]
  exact hy

end Refuses

/-- A reading that succeeds comes to a place from where the one behind it goes on. -/
theorem Succeeds.run_bind {P : α → Cursor → Prop} (hx : Succeeds c x P) :
    ∃ a e, P a e ∧ ∀ {β : Type} (k : α → Reading β), (x >>= k).run.run c = (k a).run.run e := by
  obtain ⟨a, ha, hP⟩ := hx
  exact ⟨a, _, hP, fun _ => run_bind_some ha⟩

end Reading

open Reading

/-! ### Cursors in front of a command -/

namespace Cursor

variable {c e : Cursor} {text : List Char}

/-- The cursor stands in its source, and nothing is wrong so far. -/
structure Clean (c : Cursor) : Prop where
  inSource : c.InSource
  fault : c.fault = none

theorem Clean.passes (h : c.Clean) (hpassed : c.Passes text e) (hfault : e.fault = c.fault) : e.Clean :=
  ⟨hpassed.inSource h.inSource, hfault.trans h.fault⟩

theorem Clean.skipSpace (h : c.Clean) : c.skipSpace.Clean := h.passes (advances_skip _ c).passes rfl

/-- Behind a reading that cannot fail nothing is wrong. -/
theorem Clean.quiet {α : Type} {x : Reading α} {P : α → Cursor → Prop} (h : c.Clean) (hx : Succeeds c x P)
    (hquiet : Quiet x) : Succeeds c x fun a e => P a e ∧ e.Clean := by
  obtain ⟨a, ha, hP⟩ := hx
  obtain ⟨text, b, e, hrun, htext, hfault⟩ := hquiet c
  refine ⟨a, ha, hP, ?_⟩
  rw [hrun]
  exact h.passes htext hfault

/-- Behind a reading that explains its failures and succeeds nothing is wrong either. -/
theorem Clean.succeeds {α : Type} {x : Reading α} {P : α → Cursor → Prop} (h : c.Clean) (hx : Succeeds c x P)
    (hexplains : Explaining x) (hforward : Forward x) : Succeeds c x fun a e => P a e ∧ e.Clean := by
  obtain ⟨a, ha, hP⟩ := hx
  obtain ⟨text, htext, -⟩ := hforward c a ha
  exact ⟨a, ha, hP, htext.inSource h.inSource, (hexplains c h.inSource).clean h.fault a ha⟩

end Cursor

/-- Where a command begins, the text is taken for the name of one: it begins with no digit and is not the word `not`. -/
structure IsCallable (name : String) (subcommand : Option String) : Prop extends IsFullName name subcommand where
  digit : StopsAt Char.isDigit name.toList
  notNot : Command.fullName name subcommand ≠ "not"

/-- The command has the subcommand, or it has none and none is given. -/
structure Command.Takes (c : Command) (subcommand : Option String) : Prop where
  isSome : subcommand.isSome = c.hasSubcommands
  mem : ∀ sub ∈ subcommand, sub ∈ c.subcommands

namespace Command.Regular

variable {c : Command} {s : Signature}

theorem isCallable (h : c.Regular) (hs : s ∈ c.signatures) : IsCallable c.name s.subcommand :=
  ⟨h.isFullName hs, h.name_digit, h.fullName s hs⟩

theorem takes (h : c.Regular) (hs : s ∈ c.signatures) : c.Takes s.subcommand :=
  ⟨h.hasSubcommands s hs, fun _ hsub => Ordered.mem_sortedNames.mpr (List.mem_filterMap.mpr ⟨s, hs, hsub⟩)⟩

end Command.Regular

/-- A character that would go on with a name or a type. -/
def isHeadChar (x : Char) : Bool := isCommandChar x || isTypeChar x

/-- Where a command is read, its name and subcommand are next, then some words, each behind one space, and then what is
set off from them. -/
structure Cursor.BeginsCommand (closers : List Char) (known : NameMap ValueType) (name : String)
    (subcommand : Option String) (words : List String) (more : List Char) (c : Cursor) : Prop where
  clean : c.Clean
  faces : c.skipSpace.Faces closers known ((Command.fullName name subcommand).toList ++ (spaced words ++ more))
  more : StopsAt isHeadChar more

/-- A source may begin with a command. -/
theorem Cursor.beginsCommand_ofSource {source name : String} {sub : Option String} {words : List String}
    {more : List Char} (hsource : source.toList = (Command.fullName name sub).toList ++ (spaced words ++ more))
    (hname : IsFullName name sub) (hmore : StopsAt isHeadChar more) :
    (Cursor.ofSource source).BeginsCommand [] .empty name sub words more := by
  have hinSource : (Cursor.ofSource source).InSource :=
    ⟨[], [], by rw [List.nil_append, List.append_nil]; rfl, rfl, (Nat.zero_add _).symm⟩
  have hfaces := Cursor.faces_ofSource source
  rw [hsource] at hfaces
  exact ⟨⟨hinSource, rfl⟩, hfaces.skipNone (stopsAt_isBlank hname.ne_nil hname.isBlank), hmore⟩

/-- The cause says that a command is not known under its name, or that it does not resolve. -/
inductive Unresolved (name : String) (subcommand : Option String) (piped : Option ValueType) : Cause → Prop where
  | command : Unresolved name subcommand piped (.unknownCommand name)
  | subcommand {sub valid} (h : subcommand = some sub) :
      Unresolved name subcommand piped (.unknownSubcommand name sub valid)
  | signature {accepted hint} :
      Unresolved name subcommand piped
        (.noImplementation (Command.fullName name subcommand) piped accepted hint)

namespace Cursor.BeginsCommand

variable {closers : List Char} {known : NameMap ValueType} {name : String} {sub : Option String} {words : List String}
  {more : List Char} {c : Cursor} {d : Directory} {piped : Option ValueType} {command : Command}
  {types : List ValueType}

theorem setOff (h : c.BeginsCommand closers known name sub words more) : StopsAt isHeadChar (spaced words ++ more) :=
  h.more.spaced_append (by decide) words

theorem stopsAt_isCommandChar (h : c.BeginsCommand closers known name sub words more) :
    StopsAt isCommandChar (spaced words ++ more) := fun x hx => ((Bool.or_eq_false_iff).mp (h.setOff x hx)).1

theorem stopsAt_isTypeChar (h : c.BeginsCommand closers known name sub words more) : StopsAt isTypeChar more :=
  fun x hx => ((Bool.or_eq_false_iff).mp (h.more x hx)).2

variable (d piped) in
/-- The name is read; then its command is looked up. -/
theorem run_commandHead (h : c.BeginsCommand closers known name sub words more) (hname : IsCallable name sub) :
    ∃ e nameStart, e.Clean ∧ e.Faces closers known (subcommandText sub ++ (spaced words ++ more)) ∧
      (commandHead d piped).run.run c = (headBehindName d piped nameStart false name).run.run e := by
  have hstay : c.skipSpace.eatWord "not" = (false, c.skipSpace) := by
    refine h.faces.eatWord_other hname.ne_nil hname.isBlank (fun x hx => .inr ?_) hname.notNot
    have hx : (!isHeadChar x) = true := by rw [h.setOff x hx]; rfl
    exact @not_mem_of_test (!isHeadChar ·) _ _ hx (by decide)
  have hskip : c.skipSpace.skipSpace = c.skipSpace := skip_skip c.isSpace c
  have hstop : StopsAt isCommandChar (subcommandText sub ++ (spaced words ++ more)) := by
    cases sub with
    | none => exact h.stopsAt_isCommandChar
    | some sub =>
      rintro x ⟨⟩
      decide
  have hfaces := h.faces
  rw [toList_fullName, List.append_assoc] at hfaces
  have hword := succeeds_commandWord hfaces hname.nameWord.1 hname.nameWord.2 hname.digit hstop
  obtain ⟨word, e, ⟨⟨rfl, he⟩, hclean⟩, hrun⟩ := (h.clean.skipSpace.quiet hword quiet_commandWord).run_bind
  refine ⟨e, c.skipSpace.offset, hclean, he, ?_⟩
  unfold commandHead
  rw [Reading.skipSpace, run_move, run_step, hstay, headBehindNot, Reading.skipSpace, run_move, hskip, Reading.offset,
    run_look]
  exact hrun _

/-- The subcommand is read, if the command has some; then come the types. -/
theorem run_headBehindName {e : Cursor} {nameStart : Nat} {inverted : Bool} {text : List Char} (he : e.Clean)
    (hfaces : e.Faces closers known (subcommandText sub ++ text)) (htext : StopsAt isCommandChar text)
    (hname : IsFullName name sub) (hcommand : d.get? name = some command) (hsub : command.Takes sub) :
    ∃ f, f.Clean ∧ f.Faces closers known text ∧
      (headBehindName d piped nameStart inverted name).run.run e
        = (headTypes d piped nameStart inverted name command sub).run.run f := by
  have hhas := hsub.isSome
  unfold headBehindName
  rw [hcommand]
  dsimp only
  cases sub with
  | none =>
    refine ⟨e, he, hfaces, ?_⟩
    rw [← hhas, if_neg (by decide), pure_bind, headBehindSubcommand, run_look, hfaces.completing]
    rfl
  | some s =>
    obtain ⟨hne, hletters⟩ := hname.subcommandWord s rfl
    have hread := he.succeeds (succeeds_subcommand piped hfaces (hsub.mem s rfl) hne hletters htext)
      (explaining_subcommand command piped) (passing_subcommand command piped).forward
    have hsubcommand : Succeeds e (some <$> subcommand command piped) fun a f =>
        a = some s ∧ f.Faces closers known text ∧ f.Clean :=
      (hread.mono fun a f ⟨⟨ha, hf⟩, hclean⟩ => ⟨congrArg some ha, hf, hclean⟩).map
    obtain ⟨a, f, ⟨rfl, hf, hclean⟩, hrun⟩ := hsubcommand.run_bind
    refine ⟨f, hclean, hf, ?_⟩
    rw [← hhas, if_pos (by rfl), hrun, headBehindSubcommand, run_look, hf.completing]
    rfl

variable (piped) in
/-- The whole head is read up to the choice of the signature. -/
theorem run_headSignature (h : c.BeginsCommand closers known name sub words more) (hname : IsCallable name sub)
    (hcommand : d.get? name = some command) (hsub : command.Takes sub)
    (hwords : words.map ValueType.ofName? = types.map some) (hcount : types.length = command.typeCount sub) :
    ∃ e nameStart, e.Clean ∧ e.Faces closers known more ∧
      (commandHead d piped).run.run c
        = (headSignature d piped nameStart false name command sub types).run.run e := by
  obtain ⟨e, nameStart, he, hfaces, hrun⟩ := h.run_commandHead d piped hname
  obtain ⟨f, hf, hbehind, htypes⟩ : ∃ f : Cursor, f.Clean ∧ f.Faces closers known (spaced words ++ more) ∧
      (headBehindName d piped nameStart false name).run.run e
        = (headTypes d piped nameStart false name command sub).run.run f :=
    run_headBehindName he hfaces h.stopsAt_isCommandChar hname.toIsFullName hcommand hsub
  have hread := hf.succeeds
    (succeeds_typeArguments (Command.fullName name sub) hwords h.stopsAt_isTypeChar hbehind)
    (explaining_typeArguments _ _) (passing_typeArguments _ _).forward
  obtain ⟨ts, g, ⟨⟨rfl, hg⟩, hclean⟩, hsignature⟩ := hread.run_bind
  refine ⟨g, nameStart, hclean, hg, ?_⟩
  rw [hrun, htypes]
  unfold headTypes
  rw [← hcount]
  exact hsignature _

/-! ### What becomes of a head -/

/-- A head is read if its command resolves. -/
theorem succeeds (h : c.BeginsCommand closers known name sub words more) (hname : IsCallable name sub)
    (hcommand : d.get? name = some command) (hsub : command.Takes sub)
    (hwords : words.map ValueType.ofName? = types.map some) (hcount : types.length = command.typeCount sub)
    {signature : Signature} (hresolve : command.resolve? sub piped types.length = some signature) :
    Succeeds c (commandHead d piped) fun head e =>
      head = { inverted := false, name, subcommand := sub, types, signature } ∧ e.Faces closers known more := by
  obtain ⟨e, nameStart, -, hfaces, hrun⟩ :=
    h.run_headSignature piped hname hcommand hsub hwords hcount
  unfold Succeeds
  rw [hrun, headSignature, hresolve]
  exact ⟨_, rfl, rfl, hfaces⟩

theorem refuses_noImplementation (h : c.BeginsCommand closers known name sub words more) (hname : IsCallable name sub)
    (hcommand : d.get? name = some command) (hsub : command.Takes sub)
    (hwords : words.map ValueType.ofName? = types.map some) (hcount : types.length = command.typeCount sub)
    (hresolve : command.resolve? sub piped types.length = none) :
    Refuses c (commandHead d piped) (.noImplementation (Command.fullName name sub) piped (command.acceptedTypes sub)
      (piped.bind (d.conversion? · (command.acceptedTypes sub)))) := by
  obtain ⟨e, nameStart, he, -, hrun⟩ :=
    h.run_headSignature piped hname hcommand hsub hwords hcount
  refine .of_run_eq hrun ?_
  unfold headSignature
  rw [hresolve]
  exact .look (.refuse he.fault)

theorem refuses_unknownCommand (h : c.BeginsCommand closers known name sub words more) (hname : IsCallable name sub)
    (hcommand : d.get? name = none) : Refuses c (commandHead d piped) (.unknownCommand name) := by
  obtain ⟨e, nameStart, he, hfaces, hrun⟩ := h.run_commandHead d piped hname
  refine .of_run_eq hrun ?_
  unfold headBehindName
  rw [hcommand]
  exact .look (.offering hfaces (.look (.refuse he.fault)))

theorem refuses_unknownSubcommand {s : String} (h : c.BeginsCommand closers known name (some s) words more)
    (hname : IsCallable name (some s)) (hcommand : d.get? name = some command)
    (hhas : command.hasSubcommands = true) (hs : s ∉ command.subcommands) :
    Refuses c (commandHead d piped) (.unknownSubcommand command.name s command.subcommands) := by
  obtain ⟨e, nameStart, he, hfaces, hrun⟩ := h.run_commandHead d piped hname
  refine .of_run_eq hrun ?_
  unfold headBehindName
  rw [hcommand]
  dsimp only
  rw [if_pos hhas]
  obtain ⟨hne, hletters⟩ := hname.subcommandWord s rfl
  obtain ⟨heaten, hinside⟩ := hfaces.eat
  obtain ⟨colon, hcolon⟩ := advances_eat ':' e
  have hfault : (e.eat ':').2.fault = none := hcolon.fault.trans he.fault
  refine .first (.first (.step ?_))
  rw [heaten, if_pos rfl]
  generalize (e.eat ':').2 = f at hinside hfault
  obtain ⟨hupcoming, hbehind⟩ := hinside.skip hletters h.stopsAt_isCommandChar
  refine .look (.look (.move (.look ?_)))
  rw [hupcoming, String.ofList_toList]
  refine .offering hbehind ?_
  rw [isEmpty_of_toList hne, if_neg (by decide), if_pos (by simp [hs])]
  exact .look (.refuse hfault)

/-- In a directory of regular commands the head with this very name is read just if its command resolves. -/
theorem succeeds_iff (h : c.BeginsCommand closers known name sub words more) (hd : d.Regular)
    (hwords : words.map ValueType.ofName? = types.map some)
    (hcount : types.length = (d.get? name).elim 0 (·.typeCount sub)) :
    (Succeeds c (commandHead d piped) fun head e =>
        head.name = name ∧ head.subcommand = sub ∧ head.types = types ∧ e.Faces closers known more) ↔
      ∃ command, d.get? name = some command ∧ (command.resolve? sub piped (command.typeCount sub)).isSome := by
  constructor
  · rintro ⟨head, hrun, rfl, rfl, rfl, -⟩
    obtain ⟨command, hcommand, hresolve⟩ := yields_commandHead c head hrun
    have hcount : head.types.length = command.typeCount head.subcommand := by rwa [hcommand] at hcount
    rw [hcount] at hresolve
    exact ⟨command, hcommand, Option.isSome_iff_exists.mpr ⟨_, hresolve⟩⟩
  · rintro ⟨command, hcommand, hresolve⟩
    obtain ⟨s, hs, rfl, -⟩ := Command.isSome_resolve?_iff.mp hresolve
    obtain ⟨rfl, hregular⟩ := hd _ _ hcommand
    have hcount : types.length = command.typeCount s.subcommand := by rwa [hcommand] at hcount
    rw [← hcount] at hresolve
    obtain ⟨signature, hsignature⟩ := Option.isSome_iff_exists.mp hresolve
    refine (h.succeeds (hregular.isCallable hs) hcommand (hregular.takes hs) hwords hcount hsignature).mono ?_
    rintro head e ⟨rfl, he⟩
    exact ⟨rfl, rfl, rfl, he⟩

/-- Else the fault says that it is not known or does not resolve, if the command takes a subcommand just where one is
given. -/
theorem refuses_unresolved (h : c.BeginsCommand closers known name sub words more) (hd : d.Regular)
    (hname : IsCallable name sub) (hform : ∀ command ∈ d.get? name, sub.isSome = command.hasSubcommands)
    (hwords : words.map ValueType.ofName? = types.map some)
    (hcount : types.length = (d.get? name).elim 0 (·.typeCount sub))
    (hnone : ∀ command ∈ d.get? name, command.resolve? sub piped (command.typeCount sub) = none) :
    ∃ cause, Unresolved name sub piped cause ∧ Refuses c (commandHead d piped) cause := by
  cases hcommand : d.get? name with
  | none => exact ⟨_, .command, h.refuses_unknownCommand hname hcommand⟩
  | some command =>
    have hsome := hform command hcommand
    have hcount : types.length = command.typeCount sub := by rwa [hcommand] at hcount
    by_cases hsub : ∀ s ∈ sub, s ∈ command.subcommands
    · have hresolve := hnone command hcommand
      rw [← hcount] at hresolve
      exact ⟨_, .signature, h.refuses_noImplementation hname hcommand ⟨hsome, hsub⟩ hwords hcount hresolve⟩
    · push Not at hsub
      obtain ⟨s, rfl, hs⟩ := hsub
      obtain ⟨rfl, -⟩ := hd _ _ hcommand
      exact ⟨_, .subcommand rfl, h.refuses_unknownSubcommand hname hcommand hsome.symm hs⟩

end Cursor.BeginsCommand

end KeyConsole.Console
