import KeyConsole.Proofs.Console.Canonical.Tokens
import KeyConsole.Proofs.Console.Resolution
import KeyConsole.Proofs.Ordered.StableInsertion

/-!
# Proofs.Console.Canonical.ReadBack: a well-typed script is read back from its canonical text

The induction follows the tree.  In front of the cursor are the words of a part of the script and some more; when the
part has been read, the rest of the words are in front.
-/

namespace KeyConsole.Console

open Ordered (NameMap)
open Text (size isBlank)
open Reading

/-! ### Commands whose names can be read -/

/-- A word of the characters of command names. -/
def IsCommandName (name : String) : Prop := name.toList ≠ [] ∧ ∀ x ∈ name.toList, isCommandChar x = true

instance (name : String) : Decidable (IsCommandName name) :=
  decidable_of_iff (name.toList ≠ [] ∧ name.toList.all isCommandChar = true) (by rw [List.all_eq_true]; rfl)

/-- The name of the command and those of its subcommands are words, and what follows a name depends on it alone: all
signatures have a subcommand or none has, and those under one name take as many type arguments. -/
structure Command.Regular (c : Command) : Prop where
  name : IsCommandName c.name
  name_digit : StopsAt Char.isDigit c.name.toList
  subcommandNames : ∀ s ∈ c.signatures, ∀ sub ∈ s.subcommand, IsCommandName sub
  hasSubcommands : ∀ s ∈ c.signatures, s.subcommand.isSome = c.hasSubcommands
  typeCount : ∀ s ∈ c.signatures, c.typeCount s.subcommand = s.typeCount
  fullName : ∀ s ∈ c.signatures, Command.fullName c.name s.subcommand ≠ "not"

/-- All commands of the directory are regular and found under their own names. -/
def Directory.Regular (d : Directory) : Prop := ∀ name c, d.get? name = some c → c.name = name ∧ c.Regular

theorem Builtin.regular_commands (c : Command) (h : c ∈ Builtin.commands) : c.Regular := by
  have hall : ∀ c ∈ Builtin.commands, IsCommandName c.name ∧ StopsAt Char.isDigit c.name.toList ∧
      (∀ s ∈ c.signatures, ∀ sub ∈ s.subcommand, IsCommandName sub) ∧
      (∀ s ∈ c.signatures, s.subcommand.isSome = c.hasSubcommands) ∧
      (∀ s ∈ c.signatures, c.typeCount s.subcommand = s.typeCount) ∧
      ∀ s ∈ c.signatures, Command.fullName c.name s.subcommand ≠ "not" := by decide +kernel
  obtain ⟨hname, hdigit, hsubcommand, hhas, hcount, hfull⟩ := hall c h
  exact ⟨hname, hdigit, hsubcommand, hhas, hcount, hfull⟩

theorem Directory.regular_builtinWith (newlineEnds : Bool) : (Directory.builtinWith newlineEnds).Regular := by
  intro name c hc
  obtain ⟨hmem, hname⟩ := Directory.get?_builtin hc
  exact ⟨hname, Builtin.regular_commands c hmem⟩

variable {d : Directory} {known after : NameMap ValueType}

/-! ### First words -/

/-- The text begins with a character that is no blank and none of the marks. -/
def BeginsWithout (marks : List Char) (text : List Char) : Prop :=
  ∃ x rest, text = x :: rest ∧ isBlank x = false ∧ x ∉ marks

/-- The marks that begin neither a command nor an argument. -/
abbrev noWordMarks : List Char := [';', '|', '}']

/-- The marks that begin no literal. -/
abbrev noLiteralMarks : List Char := [';', '|', '}', '$', '{']

namespace BeginsWithout

variable {marks fewer text : List Char}

theorem mono (h : BeginsWithout marks text) (hfewer : fewer ⊆ marks) : BeginsWithout fewer text := by
  obtain ⟨x, rest, htext, hblank, hx⟩ := h
  exact ⟨x, rest, htext, hblank, fun hmem => hx (hfewer hmem)⟩

theorem append (h : BeginsWithout marks text) (more : List Char) : BeginsWithout marks (text ++ more) := by
  obtain ⟨x, rest, rfl, hx⟩ := h
  exact ⟨x, rest ++ more, rfl, hx⟩

theorem ne_nil (h : BeginsWithout marks text) : text ≠ [] := by
  obtain ⟨x, rest, rfl, -⟩ := h
  exact List.cons_ne_nil _ _

theorem stopsAt_isBlank (h : BeginsWithout marks text) : StopsAt isBlank text := by
  obtain ⟨x, rest, rfl, hx, -⟩ := h
  rintro y ⟨⟩
  exact hx

theorem head?_ne {y : Char} (h : BeginsWithout marks text) (hy : y ∈ marks) : text.head? ≠ some y := by
  obtain ⟨x, rest, rfl, -, hx⟩ := h
  rintro ⟨⟩
  exact hx hy

theorem noMark (h : BeginsWithout noWordMarks text) : NoMark text := by
  intro x hx
  refine ⟨?_, ?_, ?_⟩
  · rintro rfl
    exact h.head?_ne (by decide) hx
  · rintro rfl
    exact h.head?_ne (by decide) hx
  · rintro rfl
    exact absurd (h.stopsAt_isBlank _ hx) (by decide)

end BeginsWithout

theorem spaced_of_begins {marks : List Char} {words : List String} (h : BeginsWithout marks (joined words)) :
    spaced words = ' ' :: joined words := by
  cases words with
  | nil => exact absurd rfl h.ne_nil
  | cons w words => rfl

/-- What stands behind the name of a command that has subcommands. -/
def subcommandText : Option String → List Char
  | none => []
  | some sub => ':' :: sub.toList

theorem toList_fullName (name : String) (subcommand : Option String) :
    (Command.fullName name subcommand).toList = name.toList ++ subcommandText subcommand := by
  cases subcommand with
  | none => exact (List.append_nil _).symm
  | some sub =>
    unfold Command.fullName subcommandText
    rw [String.toList_append, String.toList_append, List.append_assoc]
    rfl

/-- The name and the subcommand, if there is one, are words of the characters of command names. -/
structure IsFullName (name : String) (subcommand : Option String) : Prop where
  nameWord : IsCommandName name
  subcommandWord : ∀ sub ∈ subcommand, IsCommandName sub

namespace IsFullName

variable {name : String} {subcommand : Option String}

theorem ne_nil (h : IsFullName name subcommand) : (Command.fullName name subcommand).toList ≠ [] := by
  rw [toList_fullName]
  exact List.append_ne_nil_of_left_ne_nil h.nameWord.1 _

/-- The name as it is written is a word. -/
theorem isBlank (h : IsFullName name subcommand) :
    ∀ x ∈ (Command.fullName name subcommand).toList, isBlank x = false := by
  intro x hx
  rw [toList_fullName] at hx
  rcases List.mem_append.mp hx with hx | hx
  · exact isBlank_of_isCommandChar (h.nameWord.2 x hx)
  · cases hsub : subcommand with
    | none =>
      rw [hsub] at hx
      cases hx
    | some sub =>
      rw [hsub] at hx
      rcases List.mem_cons.mp hx with rfl | hx
      · decide
      · exact isBlank_of_isCommandChar ((h.subcommandWord sub hsub).2 x hx)

end IsFullName

theorem Command.Regular.begins {c : Command} (h : c.Regular) (text : List Char) :
    BeginsWithout noWordMarks (c.name.toList ++ text) := by
  cases hletters : c.name.toList with
  | nil => exact absurd hletters h.name.1
  | cons x letters =>
    have hx : isCommandChar x = true := h.name.2 x (hletters ▸ List.mem_cons_self)
    exact ⟨x, letters ++ text, rfl, isBlank_of_isCommandChar hx, not_mem_of_test hx (by decide)⟩

theorem Command.Regular.isFullName {c : Command} {s : Signature} (h : c.Regular) (hs : s ∈ c.signatures) :
    IsFullName c.name s.subcommand := ⟨h.name, h.subcommandNames s hs⟩

theorem Clause.Fits.begins (hd : d.Regular) {c : Clause} (h : c.Fits d known after) (words : List String) :
    BeginsWithout noWordMarks (joined (c.words ++ words)) := by
  cases h with
  | mk hcommand hsignature harguments =>
    rename_i inverted name subcommand types arguments piped command signature blocks variableTypes
    obtain ⟨rfl, hregular⟩ := hd _ _ hcommand
    unfold Clause.words
    cases inverted with
    | true => exact ⟨'n', _, rfl, by decide⟩
    | false =>
      have hbegins := hregular.begins (subcommandText subcommand ++
        spaced (types.map ValueType.name ++ argumentWords arguments ++ words))
      rw [← List.append_assoc, ← toList_fullName] at hbegins
      exact hbegins

theorem Clause.Fits.words_ne_nil {u : Clause} (h : u.Fits d known after) : u.words ≠ [] := by
  cases h
  simp [Clause.words]

theorem Script.Fits.begins (hd : d.Regular) {s : Script} (h : s.Fits d known after) (words : List String) :
    BeginsWithout noWordMarks (joined (s.words ++ words)) := by
  cases h with
  | last h => exact h.begins hd words
  | link h hjoins hrest =>
    unfold Script.words
    rw [List.append_assoc]
    exact h.begins hd _

/-! ### Braces and variables in front -/

/-- The innermost block, if there is one, ends at a brace. -/
def InBraces (closers : List Char) : Prop := ∀ x ∈ closers.head?, x = '}'

theorem inBraces_cons (closers : List Char) : InBraces ('}' :: closers) := by
  rintro x ⟨⟩
  rfl

namespace Cursor.Faces

variable {c : Cursor} {closers : List Char} {text more : List Char}

theorem not_atCloser (h : c.Faces closers known text) (hclosers : InBraces closers) (htext : text.head? ≠ some '}') :
    c.atCloser = false := by
  unfold atCloser
  rw [h.closers, h.peek]
  cases closers with
  | nil => rfl
  | cons x closers =>
    rw [hclosers x rfl]
    exact decide_eq_false htext

theorem atCloser (h : c.Faces closers known ('}' :: more)) (hclosers : closers.head? = some '}') :
    c.atCloser = true := by
  unfold Cursor.atCloser
  rw [h.closers, h.peek, hclosers]
  rfl

theorem pushCloser (h : c.Faces closers known text) (mark : Char) :
    (c.pushCloser mark).Faces (mark :: closers) known text :=
  ⟨h.rest, h.stop, congrArg (mark :: ·) h.closers, h.known, h.completing⟩

theorem eatCloser (h : c.Faces ('}' :: closers) known ('}' :: more)) :
    c.eatCloser.1 = true ∧ c.eatCloser.2.Faces closers known more := by
  unfold Cursor.eatCloser
  rw [if_pos (h.atCloser rfl)]
  refine ⟨rfl, h.next.rest, h.next.stop, ?_, h.next.known, h.next.completing⟩
  dsimp only
  rw [h.closers]
  rfl

theorem declare (h : c.Faces closers known text) (name : String) (t : ValueType) :
    (c.declare name t).Faces closers (known.put name t) text :=
  ⟨h.rest, h.stop, h.closers, congrArg (NameMap.put · name t) h.known, h.completing⟩

end Cursor.Faces

/-- Behind the words of a script its text or its block ends. -/
def Ends (closers : List Char) (words : List String) : Prop :=
  words = [] ∨ ∃ more, words = "\x7d" :: more ∧ closers.head? = some '}'

/-! ### Pipelines and blocks -/

/-- Wherever the script stands, the steps read there are its commands. -/
def Script.ReadsBack (d : Directory) (s : Script) : Prop :=
  ∀ ⦃known after : NameMap ValueType⦄ ⦃c : Cursor⦄ ⦃closers : List Char⦄ ⦃words : List String⦄ (depth n : Nat),
    s.Fits d known after → (∀ t ∈ s.typeArguments, t.isWritable = true) →
    c.Faces closers known (joined (s.words ++ words)) → InBraces closers → Ends closers words →
    (joined (s.words ++ words)).length ≤ depth → (joined (s.words ++ words)).length < n →
      Succeeds c (steps d (readNested d depth) false n s.piped) fun r e =>
        stepsAre r.steps s ∧ r.piped = some s.returns ∧ e.Faces closers after (joined words)

/-- What the last step returns is what the script returns. -/
theorem returns_of_stepsAre {ts : List Step} {s : Script} (h : stepsAre ts s) :
    ts.getLast?.elim .void (·.returns) = s.returns := by
  induction ts generalizing s with
  | nil => exact h.elim
  | cons t ts ih =>
    obtain ⟨_, _, _, _, _, _, _, _, _⟩ := t
    cases s with
    | last c =>
      obtain ⟨ht, rfl⟩ := h
      exact ht.2.2.2.2.2.2
    | link c l rest =>
      obtain ⟨-, hrest⟩ := h
      cases ts with
      | nil => exact hrest.elim
      | cons u ts =>
        rw [List.getLast?_cons_cons]
        exact ih (s := rest) hrest

theorem Pipeline.Is.returns_eq {p : Pipeline} {s : Script} (h : p.Is s) : p.returns = s.returns := by
  obtain ⟨_, _, _, _⟩ := p
  exact h.2.2

variable {s : Script} {c : Cursor} {closers : List Char} {words : List String} {depth : Nat}
  {target : Option ValueType}

/-- A script in a pipeline, behind a space or not. -/
theorem Script.ReadsBack.succeeds_pipeline (h : s.ReadsBack d) (hd : d.Regular) (hfits : s.Fits d known after)
    (hwritable : ∀ t ∈ s.typeArguments, t.isWritable = true)
    (hfaces : c.skipSpace.Faces closers known (joined (s.words ++ words))) (hclosers : InBraces closers)
    (hends : Ends closers words) (hdepth : (joined (s.words ++ words)).length < depth)
    (htarget : ∀ t ∈ target, s.returns.assignable t = true) :
    Succeeds c (readNested d depth false s.piped target) fun p e =>
      p.Is s ∧ e.Faces closers after (joined words) := by
  cases depth with
  | zero => omega
  | succ depth =>
    have hbegins := hfits.begins hd words
    have hopen := hfaces.not_atCloser hclosers (hbegins.head?_ne (by decide))
    have hlength : c.skipSpace.rest.length = (joined (s.words ++ words)).length := congrArg List.length hfaces.rest
    unfold readNested pipeline
    refine Succeeds.move (Succeeds.look (Succeeds.look ?_))
    rw [hopen]
    have hcommands : Succeeds c.skipSpace (commands d (readNested d depth) false s.piped) _ :=
      Succeeds.look (h depth _ hfits hwritable hfaces hclosers hends (by omega) (by omega))
    refine hcommands.bind fun r e ⟨hr, hpiped, he⟩ => ?_
    have htypes : target.all s.returns.assignable = true := by
      cases target with
      | none => rfl
      | some t => exact htarget t rfl
    rw [hpiped]
    dsimp only
    rw [returns_of_stepsAre hr, if_pos htypes]
    exact Succeeds.look (Succeeds.pure ⟨⟨hr, rfl, rfl⟩, he⟩)

/-- A script in braces. -/
theorem Script.ReadsBack.succeeds_block (h : s.ReadsBack d) (hd : d.Regular) (hfits : s.Fits d known after)
    (hwritable : ∀ t ∈ s.typeArguments, t.isWritable = true)
    (hfaces : c.Faces closers known (joined ("\x7b" :: (s.words ++ ["\x7d"]) ++ words)))
    (hdepth : (joined ("\x7b" :: (s.words ++ ["\x7d"]) ++ words)).length ≤ depth)
    (htarget : ∀ t ∈ target, s.returns.assignable t = true) :
    Succeeds c (block (readNested d depth) s.piped target) fun p e =>
      p.Is s ∧ e.Faces closers after (spaced words) := by
  have hbegins := hfits.begins hd ("\x7d" :: words)
  have htext : joined ("\x7b" :: (s.words ++ ["\x7d"]) ++ words)
      = '{' :: ' ' :: joined (s.words ++ "\x7d" :: words) := by
    rw [List.cons_append, List.append_assoc]
    exact congrArg ('{' :: ·) (spaced_of_begins hbegins)
  rw [htext] at hfaces hdepth
  obtain ⟨heaten, hinside⟩ := (hfaces.skipNone (by rintro x ⟨⟩; decide)).eat
  unfold block
  refine Succeeds.move (Succeeds.look (Succeeds.step ?_))
  rw [heaten, if_pos rfl]
  refine Succeeds.move ?_
  have hnested := (hinside.pushCloser '}').skipOne hbegins.stopsAt_isBlank
  have hless : (joined (s.words ++ "\x7d" :: words)).length < depth := by
    simp only [List.length_cons] at hdepth
    omega
  have hread := h.succeeds_pipeline hd hfits hwritable hnested (inBraces_cons closers) (Or.inr ⟨words, rfl, rfl⟩)
    hless htarget
  refine hread.bind fun p e ⟨hp, he⟩ => ?_
  obtain ⟨hclosed, hbehind⟩ := Cursor.Faces.eatCloser he
  refine Succeeds.step ?_
  rw [hclosed, if_pos rfl]
  exact Succeeds.pure ⟨hp, hbehind⟩

/-! ### Arguments -/

/-- No argument is missing where a word begins. -/
theorem BeginsWithout.not_atCommandEnd {text : List Char} (h : BeginsWithout noWordMarks text)
    (hfaces : c.Faces closers known text) (hclosers : InBraces closers) : c.atCommandEnd = false := by
  obtain ⟨x, rest, rfl, hblank, hx⟩ := h
  have hnewline : x ≠ '\n' := by
    rintro rfl
    exact absurd hblank (by decide)
  have hcloser : closers.head? ≠ some x := by
    intro hhead
    rw [hclosers x hhead] at hx
    exact hx (by simp)
  simp only [List.mem_cons, List.not_mem_nil, or_false, not_or] at hx
  unfold Cursor.atCommandEnd
  rw [hfaces.peek, hfaces.closers]
  simp [hx, hnewline, hcloser]

theorem begins_intText (n : Int) : BeginsWithout noLiteralMarks (Decimal.intText n).toList := by
  cases hletters : (Decimal.intText n).toList with
  | nil => exact absurd hletters (Decimal.intText_ne_nil n)
  | cons x rest =>
    refine ⟨x, rest, rfl, ?_⟩
    rcases Decimal.mem_intText (hletters ▸ List.mem_cons_self : x ∈ (Decimal.intText n).toList) with hdigit | rfl
    · exact ⟨isBlank_of_isLiteralChar (isLiteralChar_of_isDigit hdigit), not_mem_of_test hdigit (by decide)⟩
    · decide

theorem begins_bool (b : Bool) : BeginsWithout noLiteralMarks (if b then "true" else "false").toList := by
  cases b with
  | true => exact ⟨'t', _, rfl, by decide⟩
  | false => exact ⟨'f', _, rfl, by decide⟩

theorem begins_quotedText (s : String) : BeginsWithout noLiteralMarks (quotedText s).toList := by
  rw [quotedText, String.toList_ofList]
  exact ⟨'"', _, rfl, by decide⟩

theorem joined_variable (name : String) (words : List String) :
    joined (("$" ++ name) :: words) = '$' :: (name.toList ++ spaced words) := by
  rw [joined, String.toList_append]
  rfl

theorem Phrase.begins (a : Phrase) (words : List String) :
    BeginsWithout noWordMarks (joined (a.words ++ words)) := by
  cases a with
  | int n => exact ((begins_intText n.toInt).append _).mono (by decide)
  | bool b => exact ((begins_bool b).append _).mono (by decide)
  | string s => exact ((begins_quotedText s).append _).mono (by decide)
  | read name t => exact ⟨'$', _, joined_variable name words, by decide⟩
  | valueBlock s => exact ⟨'{', _, rfl, by decide⟩
  | block s => exact ⟨'{', _, rfl, by decide⟩
  | «variable» name => exact ⟨'$', _, joined_variable name words, by decide⟩

/-- Where a literal begins the argument is read as one. -/
theorem BeginsWithout.succeeds_literal {α : Type} {ifVariable ifBlock x : Reading α} {Q : α → Cursor → Prop}
    {text : List Char} (h : BeginsWithout noLiteralMarks text) (hfaces : c.Faces closers known text)
    (hx : Succeeds c x Q) :
    Succeeds c (match c.peek with | some '$' => ifVariable | some '{' => ifBlock | _ => x) Q := by
  obtain ⟨y, rest, rfl, -, hy⟩ := h
  have hpeek : c.peek = some y := hfaces.peek
  split
  · rename_i hdollar
    rw [hpeek] at hdollar
    cases hdollar
    exact absurd hy (by decide)
  · rename_i hbrace
    rw [hpeek] at hbrace
    cases hbrace
    exact absurd hy (by decide)
  · exact hx

/-- Wherever the argument stands, behind a space, it is read for a parameter that it fits. -/
def Phrase.ReadsBack (d : Directory) (a : Phrase) : Prop :=
  ∀ ⦃known after : NameMap ValueType⦄ ⦃c : Cursor⦄ ⦃closers : List Char⦄ ⦃words : List String⦄ ⦃depth : Nat⦄
    ⦃piped : Option ValueType⦄ ⦃p : Parameter⦄ ⦃blocks : List ValueType⦄ ⦃variableTypes : List (Option ValueType)⦄
    (command : String),
    a.Fits d piped known p.kind after blocks variableTypes → (∀ t ∈ a.typeArguments, t.isWritable = true) →
    c.Faces closers known (spaced (a.words ++ words)) → InBraces closers →
    (spaced (a.words ++ words)).length ≤ depth →
      Succeeds c (argument (readNested d depth) command piped p) fun b e =>
        b.Is a ∧ e.Faces closers after (spaced words) ∧
          ∀ rest : Arguments, rest.cons p piped after b =
            ⟨b :: rest.arguments, blocks ++ rest.blocks, variableTypes ++ rest.variableTypes⟩

/-- The script in an argument. -/
def Phrase.script? : Phrase → Option Script
  | .valueBlock s => some s
  | .block s => some s
  | _ => none

theorem Phrase.ReadsBack.of_script (hd : d.Regular) (a : Phrase) (hscript : ∀ s ∈ a.script?, s.ReadsBack d) :
    a.ReadsBack d := by
  intro known after c closers words depth piped p blocks variableTypes command hfits hwritable hfaces hclosers hdepth
  have hbegins := a.begins words
  have htext : spaced (a.words ++ words) = ' ' :: joined (a.words ++ words) := by
    cases hwords : a.words ++ words with
    | nil =>
      rw [hwords] at hbegins
      obtain ⟨_, _, hnil, -⟩ := hbegins
      cases hnil
    | cons w more => rfl
  rw [htext] at hfaces hdepth
  replace hdepth := Nat.le_of_succ_le hdepth
  have hthere := hfaces.skipOne hbegins.stopsAt_isBlank
  have hopen := hbegins.not_atCommandEnd hthere hclosers
  have hmore : c.skipSpace.atEnd = false := by
    obtain ⟨x, rest, hx, -⟩ := hbegins
    rw [hthere.atEnd, hx]
    rfl
  obtain ⟨name, kind⟩ := p
  unfold argument
  refine Succeeds.move (Succeeds.get ?_)
  generalize c.skipSpace = c at hthere hopen hmore
  dsimp only
  rw [hopen, hmore, Bool.false_and, Bool.false_or, if_neg (by decide), if_neg (by decide)]
  cases hfits with
  | int =>
    refine ((begins_intText _).append _).succeeds_literal hthere ?_
    exact (succeeds_literal_int hthere (stopsAt_spaced (by decide) _)).bind fun v e ⟨hv, he⟩ =>
      Succeeds.pure ⟨by rw [hv]; rfl, he, fun _ => rfl⟩
  | bool =>
    refine ((begins_bool _).append _).succeeds_literal hthere ?_
    exact (succeeds_literal_bool hthere (stopsAt_spaced (by decide) _)).bind fun v e ⟨hv, he⟩ =>
      Succeeds.pure ⟨by rw [hv]; rfl, he, fun _ => rfl⟩
  | string =>
    refine ((begins_quotedText _).append _).succeeds_literal hthere ?_
    exact (succeeds_literal_string hthere).bind fun v e ⟨hv, he⟩ =>
      Succeeds.pure ⟨by rw [hv]; rfl, he, fun _ => rfl⟩
  | read hname =>
    have hpeek : c.peek = some '$' := hthere.peek.trans (congrArg List.head? (joined_variable _ words))
    rw [hpeek]
    exact (succeeds_variableName hname _ hthere (stopsAt_spaced (by decide) _)).bind fun v e ⟨hv, he⟩ =>
      Succeeds.pure ⟨⟨hv, rfl⟩, he, fun _ => rfl⟩
  | @valueBlock _ _ _ s t hinner hpiped hreturns =>
    have htarget : ∀ u ∈ some t, s.returns.assignable u = true := by
      rintro u ⟨⟩
      exact hreturns
    have hread := (hscript s rfl).succeeds_block hd hinner hwritable hthere hdepth htarget
    rw [hthere.peek]
    rw [hpiped] at hread
    exact hread.bind fun v e ⟨hv, he⟩ => Succeeds.pure ⟨hv, he, fun _ => rfl⟩
  | block hinner hpiped hreturns =>
    have hread := (hscript _ rfl).succeeds_block hd hinner hwritable hthere hdepth hreturns
    rw [hpiped] at hread
    refine hread.bind fun v e ⟨hv, he⟩ => Succeeds.pure ⟨hv, he, fun rest => ?_⟩
    rw [← hv.returns_eq]
    rfl
  | assign hname =>
    refine (succeeds_variableName hname _ hthere (stopsAt_spaced (by decide) _)).bind fun v e ⟨hv, he⟩ =>
      Succeeds.move (Succeeds.pure ⟨hv, ?_, fun _ => rfl⟩)
    rw [hv]
    exact he.declare _ _
  | «variable» hname =>
    exact (succeeds_variableName hname _ hthere (stopsAt_spaced (by decide) _)).bind fun v e ⟨hv, he⟩ =>
      Succeeds.pure ⟨hv, he, fun _ => by rw [hv]; rfl⟩

/-- Wherever the arguments stand, each behind a space, they are read for parameters that they fit. -/
def PhrasesReadBack (d : Directory) (as : List Phrase) : Prop :=
  ∀ ⦃known after : NameMap ValueType⦄ ⦃c : Cursor⦄ ⦃closers : List Char⦄ ⦃words : List String⦄ ⦃depth : Nat⦄
    ⦃piped : Option ValueType⦄ ⦃ps : List Parameter⦄ ⦃blocks : List ValueType⦄
    ⦃variableTypes : List (Option ValueType)⦄ (command : String),
    PhrasesFit d piped known ps as after blocks variableTypes → (∀ t ∈ argumentTypes as, t.isWritable = true) →
    c.Faces closers known (spaced (argumentWords as ++ words)) → InBraces closers →
    (spaced (argumentWords as ++ words)).length ≤ depth →
      Succeeds c (arguments (readNested d depth) command piped ps) fun r e =>
        argumentsAre r.arguments as ∧ r.blocks = blocks ∧ r.variableTypes = variableTypes ∧
          e.Faces closers after (spaced words)

theorem PhrasesReadBack.nil : PhrasesReadBack d [] := by
  intro known after c closers words depth piped ps blocks variableTypes command hfit hwritable hfaces hclosers hdepth
  cases hfit
  exact Succeeds.pure ⟨trivial, rfl, rfl, hfaces⟩

theorem PhrasesReadBack.cons {a : Phrase} {rest : List Phrase} (ha : a.ReadsBack d) (hrest : PhrasesReadBack d rest) :
    PhrasesReadBack d (a :: rest) := by
  intro known after c closers words depth piped ps blocks variableTypes command hfit hwritable hfaces hclosers hdepth
  cases hfit with
  | cons hfirst hothers =>
    obtain ⟨hwritable, hwritableRest⟩ := List.forall_mem_append.mp hwritable
    rw [argumentWords, List.append_assoc] at hfaces hdepth
    have hless : (spaced (argumentWords rest ++ words)).length ≤ depth := by
      rw [spaced_append, List.length_append] at hdepth
      omega
    unfold arguments
    refine (ha command hfirst hwritable hfaces hclosers hdepth).bind fun b e ⟨hb, he, hcons⟩ => Succeeds.look ?_
    refine (hrest command hothers hwritableRest he hclosers hless).bind fun r f ⟨hr, hblocks, htypes, hf⟩ => ?_
    refine Succeeds.pure ?_
    rw [he.known, hcons, hblocks, htypes]
    exact ⟨⟨hb, hr⟩, rfl, rfl, hf⟩

/-! ### Commands -/

/-- With or without a `not` in front, the name of the command is next. -/
theorem Cursor.Faces.inverted {inverted : Bool} {name : String} (hne : name.toList ≠ [])
    (hname : ∀ x ∈ name.toList, isBlank x = false) (hother : name ≠ "not")
    (h : c.Faces closers known (joined ((if inverted then ["not"] else []) ++ name :: words))) :
    (c.skipSpace.eatWord "not").1 = inverted ∧
      (c.skipSpace.eatWord "not").2.skipSpace.Faces closers known (name.toList ++ spaced words) := by
  have hstop : StopsAt isBlank (name.toList ++ spaced words) := stopsAt_isBlank hne hname
  cases inverted with
  | true =>
    have hfaces : c.Faces closers known ("not".toList ++ ' ' :: (name.toList ++ spaced words)) := h
    have hskip := hfaces.skipNone (by rintro x ⟨⟩; decide)
    have hword : ∀ x ∈ "not".toList, isBlank x = false := fun x hx =>
      Text.isBlank_of_isAlphanum (List.all_eq_true.mp (by decide) x hx)
    obtain ⟨heaten, hbehind⟩ := hskip.eatWord (by decide) hword (by rintro x ⟨⟩; decide)
    exact ⟨heaten, hbehind.skipOne hstop⟩
  | false =>
    have hfaces : c.Faces closers known (name.toList ++ spaced words) := h
    have hskip := hfaces.skipNone hstop
    have hspace : ∀ x ∈ (spaced words).head?, isBlank x = true ∨ x ∉ "not".toList := fun x hx =>
      .inl ((Bool.not_eq_false' _).mp (@stopsAt_spaced (!isBlank ·) (by decide) words x hx))
    rw [hskip.eatWord_other hne hname hspace hother]
    exact ⟨rfl, hskip.skipNone hstop⟩

theorem stopsAt_subcommandText (subcommand : Option String) (words : List String) :
    StopsAt isCommandChar (subcommandText subcommand ++ spaced words) := by
  cases subcommand with
  | none => exact stopsAt_spaced (by decide) words
  | some sub =>
    rintro x ⟨⟩
    decide

/-- The subcommand of a command that has some. -/
theorem Command.Regular.succeeds_subcommand {α : Type} {command : Command} {signature : Signature}
    (h : command.Regular) (hsignature : signature ∈ command.signatures) {piped : Option ValueType}
    (hfaces : c.Faces closers known (subcommandText signature.subcommand ++ spaced words))
    {k : Option String → Reading α} {Q : α → Cursor → Prop}
    (hk : ∀ e, e.Faces closers known (spaced words) → Succeeds e (k signature.subcommand) Q) :
    Succeeds c (if command.hasSubcommands then some <$> subcommand command piped >>= k else pure none >>= k) Q := by
  rw [← h.hasSubcommands signature hsignature]
  cases hsub : signature.subcommand with
  | none =>
    rw [hsub] at hfaces hk
    exact hk c hfaces
  | some sub =>
    rw [hsub] at hfaces hk
    obtain ⟨hne, hletters⟩ := h.subcommandNames signature hsignature sub hsub
    have hmem : sub ∈ command.subcommands :=
      Ordered.mem_sortedNames.mpr (List.mem_filterMap.mpr ⟨signature, hsignature, hsub⟩)
    have hread := Console.succeeds_subcommand piped hfaces hmem hne hletters (stopsAt_spaced (by decide) _)
    have hsome : Succeeds c (some <$> subcommand command piped) fun s e =>
        s = some sub ∧ e.Faces closers known (spaced words) :=
      (hread.mono fun s e ⟨hs, he⟩ => ⟨congrArg some hs, he⟩).map
    refine hsome.bind fun s e ⟨hs, he⟩ => ?_
    rw [hs]
    exact hk e he

/-- What stands behind the name of a command, up to its arguments. -/
theorem Command.Regular.succeeds_headBehindName {command : Command} {signature : Signature} {types : List ValueType}
    {piped : Option ValueType} {nameStart : Nat} {inverted : Bool} (h : command.Regular)
    (hcommand : d.get? command.name = some command)
    (hsignature : command.resolve? signature.subcommand piped types.length = some signature)
    (htypes : ∀ t ∈ types, t.isWritable = true)
    (hfaces : c.Faces closers known
      (subcommandText signature.subcommand ++ spaced (types.map ValueType.name ++ words))) :
    Succeeds c (headBehindName d piped nameStart inverted command.name) fun head e =>
      head = { inverted, name := command.name, subcommand := signature.subcommand, types, signature } ∧
        e.Faces closers known (spaced words) := by
  obtain ⟨hmem, -, hcount, -⟩ := Command.resolve?_spec hsignature
  have hnames : (types.map ValueType.name).map ValueType.ofName? = types.map some := by
    rw [List.map_map]
    exact List.map_congr_left fun t ht => ValueType.ofName?_name (htypes t ht)
  unfold headBehindName
  rw [hcommand]
  refine h.succeeds_subcommand hmem hfaces fun e he => ?_
  unfold headBehindSubcommand headTypes
  refine Succeeds.look ?_
  rw [he.completing, Bool.false_and, Bool.and_false, if_neg (by decide), h.typeCount _ hmem, hcount]
  rw [spaced_append] at he
  refine (succeeds_typeArguments _ hnames (stopsAt_spaced (by decide) _) he).bind fun ts f ⟨hts, hf⟩ => ?_
  unfold headSignature
  rw [hts, hsignature]
  exact Succeeds.pure ⟨rfl, hf⟩

/-- Wherever the command stands, it is read. -/
def Clause.ReadsBack (d : Directory) (u : Clause) : Prop :=
  ∀ ⦃known after : NameMap ValueType⦄ ⦃c : Cursor⦄ ⦃closers : List Char⦄ ⦃words : List String⦄ ⦃depth : Nat⦄
    (start : Nat),
    u.Fits d known after → (∀ t ∈ u.typeArguments, t.isWritable = true) →
    c.Faces closers known (joined (u.words ++ words)) → InBraces closers →
    (joined (u.words ++ words)).length ≤ depth →
      Succeeds c (command d (readNested d depth) u.piped start) fun t e =>
        t.Is u ∧ e.Faces closers after (spaced words)

theorem Clause.ReadsBack.of_arguments (hd : d.Regular) {u : Clause} (harguments : PhrasesReadBack d u.arguments) :
    u.ReadsBack d := by
  intro known after c closers words depth start hfits hwritable hfaces hclosers hdepth
  cases hfits with
  | mk hcommand hsignature hfit =>
    rename_i inverted name subcommand types arguments piped command signature blocks variableTypes
    obtain ⟨rfl, hregular⟩ := hd _ _ hcommand
    obtain ⟨hmem, rfl, hcount, -⟩ := Command.resolve?_spec hsignature
    obtain ⟨htypes, hwritable⟩ := List.forall_mem_append.mp hwritable
    have hfullName := hregular.isFullName hmem
    unfold Clause.words at hfaces hdepth
    rw [List.append_assoc, List.cons_append, List.append_assoc] at hfaces hdepth
    have hless : (spaced (argumentWords arguments ++ words)).length ≤ depth := by
      have hsplit : ∀ (first : List String) (w : String) (more : List String),
          first ++ w :: (types.map ValueType.name ++ more) = (first ++ w :: types.map ValueType.name) ++ more := by simp
      rw [hsplit] at hdepth
      exact (length_spaced_le (by simp) _).trans hdepth
    obtain ⟨hinverted, hname⟩ := hfaces.inverted hfullName.ne_nil hfullName.isBlank (hregular.fullName _ hmem)
    have hhead : Succeeds c (commandHead d piped) fun head e =>
        head = { inverted, name := command.name, subcommand := signature.subcommand, types, signature } ∧
          e.Faces closers known (spaced (argumentWords arguments ++ words)) := by
      unfold commandHead headBehindNot
      refine Succeeds.move (Succeeds.step (Succeeds.move (Succeeds.look ?_)))
      rw [hinverted]
      generalize (c.skipSpace.eatWord "not").2.skipSpace = c at hname
      rw [toList_fullName, List.append_assoc] at hname
      have hword := succeeds_commandWord hname hregular.name.1 hregular.name.2 hregular.name_digit
        (stopsAt_subcommandText _ _)
      refine hword.bind fun w e ⟨hw, he⟩ => ?_
      rw [hw]
      exact hregular.succeeds_headBehindName hcommand hsignature htypes he
    unfold Reading.command Head.finish
    refine hhead.bind fun head e ⟨hsame, he⟩ => ?_
    subst hsame
    refine (harguments _ hfit hwritable he hclosers hless).bind fun r e ⟨hr, hblocks, hvariables, he⟩ => ?_
    rw [hblocks, hvariables]
    exact Succeeds.spanFrom fun span => Succeeds.pure ⟨⟨rfl, rfl, rfl, rfl, hr, rfl, rfl⟩, he⟩

/-! ### Scripts -/

theorem Step.Is.returns_eq {t : Step} {u : Clause} (h : t.Is u) : t.returns = u.returns := by
  obtain ⟨_, _, _, _, _, _, _, _, _⟩ := t
  exact h.2.2.2.2.2.2

/-- Over the space in front of words, if there are any. -/
theorem Cursor.Faces.skipToWords (h : c.Faces closers known (spaced words)) (hwords : StopsAt isBlank (joined words)) :
    c.skipSpace.Faces closers known (joined words) := by
  cases words with
  | nil => exact h.skipNone hwords
  | cons w words => exact h.skipOne hwords

theorem Script.ReadsBack.last {u : Clause} (hu : u.ReadsBack d) : (Script.last u).ReadsBack d := by
  intro known after c closers words depth n hfits hwritable hfaces hclosers hends hdepth hn
  cases hfits with
  | last hfits =>
    cases n with
    | zero => omega
    | succ n =>
      unfold steps row
      refine Succeeds.look ((hu _ hfits hwritable hfaces hclosers hdepth).bind fun t e ⟨ht, he⟩ => ?_)
      rw [if_neg (by decide)]
      refine Succeeds.look (Succeeds.move (Succeeds.look (Succeeds.set (Succeeds.get ?_))))
      have hyield : ∀ f, f.Faces closers after (joined words) →
          Succeeds f (Pure.pure (Steps.mk [t] (some t.returns))) fun r e =>
            stepsAre r.steps (.last u) ∧ r.piped = some u.returns ∧ e.Faces closers after (joined words) :=
        fun f hf => Succeeds.pure ⟨⟨ht, rfl⟩, congrArg some ht.returns_eq, hf⟩
      rcases hends with rfl | ⟨more, rfl, hbrace⟩
      · have hthere := he.skipToWords (by rintro x ⟨⟩)
        rw [hthere.joints_none (by rintro x ⟨⟩)]
        dsimp only
        rw [hthere.not_atCloser hclosers (by simp [joined]), hthere.atEnd, Bool.false_and, Bool.false_and,
          if_neg (by decide), if_neg (by decide), if_neg (by decide), if_pos (by rfl)]
        exact hthere.offering (hyield _ hthere)
      · have hthere := he.skipToWords (by rintro x ⟨⟩; decide)
        rw [hthere.joints_none (by rintro x ⟨⟩; decide)]
        dsimp only
        rw [Cursor.Faces.atCloser hthere hbrace, if_pos (by decide)]
        exact hyield _ hthere

/-- From the end of a command over the mark between it and the next. -/
theorem Link.Joins.passes {l : Link} {returns : ValueType} {piped : Option ValueType} (h : l.Joins returns piped)
    (hfaces : c.Faces closers known (spaced (l.words ++ words))) (hbegins : BeginsWithout noWordMarks (joined words)) :
    (c.skipSpace.joints (some returns)).piped = piped ∧
      (c.skipSpace.joints (some returns)).after.Faces closers known (joined words) := by
  have hspaced := spaced_of_begins hbegins
  cases l with
  | space =>
    obtain ⟨rfl, -⟩ := h
    have hthere := hfaces.skipToWords hbegins.stopsAt_isBlank
    rw [hthere.joints_none hbegins.noMark]
    exact ⟨rfl, hthere⟩
  | bar =>
    obtain ⟨rfl, hvoid⟩ := h
    have hthere : c.skipSpace.Faces closers known ('|' :: spaced words) :=
      hfaces.skipToWords (by rintro x ⟨⟩; decide)
    rw [hspaced] at hthere
    exact hthere.joints_bar hbegins.stopsAt_isBlank hbegins.noMark hvoid
  | semicolon =>
    obtain rfl := h
    have hthere : c.skipSpace.Faces closers known (';' :: spaced words) :=
      hfaces.skipToWords (by rintro x ⟨⟩; decide)
    rw [hspaced] at hthere
    exact hthere.joints_semicolon hbegins.stopsAt_isBlank hbegins.noMark (some returns)

theorem Link.Joins.ne_void {l : Link} {returns : ValueType} {piped : Option ValueType} (h : l.Joins returns piped) :
    piped ≠ some .void := by
  cases l with
  | semicolon =>
    obtain rfl := h
    exact Option.some_ne_none _ |>.symm
  | space | bar =>
    obtain ⟨rfl, hvoid⟩ := h
    exact fun hnone => hvoid (Option.some.inj hnone)

theorem Script.ReadsBack.link (hd : d.Regular) {u : Clause} {l : Link} {rest : Script} (hu : u.ReadsBack d)
    (hrest : rest.ReadsBack d) : (Script.link u l rest).ReadsBack d := by
  intro known after c closers words depth n hfits hwritable hfaces hclosers hends hdepth hn
  cases hfits with
  | link hfirst hjoins hothers =>
    cases n with
    | zero => omega
    | succ n =>
      have hbegins := hothers.begins hd words
      obtain ⟨hwritable, hwritableRest⟩ := List.forall_mem_append.mp hwritable
      unfold Script.words at hfaces hdepth hn
      rw [List.append_assoc, List.append_assoc] at hfaces hdepth hn
      have hless : (joined (rest.words ++ words)).length
          < (joined (u.words ++ (l.words ++ (rest.words ++ words)))).length := by
        have hspaced := congrArg List.length (spaced_of_begins hbegins)
        have hbehind := length_spaced_le hfirst.words_ne_nil (l.words ++ (rest.words ++ words))
        rw [spaced_append, List.length_append] at hbehind
        rw [List.length_cons] at hspaced
        omega
      unfold steps row
      refine Succeeds.look ((hu _ hfirst hwritable hfaces hclosers hdepth).bind fun t e ⟨ht, he⟩ => ?_)
      rw [if_neg (by decide)]
      refine Succeeds.look (Succeeds.move (Succeeds.look (Succeeds.set (Succeeds.get ?_))))
      rw [ht.returns_eq]
      obtain ⟨hpiped, hthere⟩ := hjoins.passes he hbegins
      have hmore := hrest depth n hothers hwritableRest hthere hclosers hends (by omega) (by omega)
      have hopen : (joined (rest.words ++ words)).isEmpty = false := by
        rw [List.isEmpty_eq_false_iff]
        exact hbegins.ne_nil
      dsimp only
      rw [hthere.not_atCloser hclosers (hbegins.head?_ne (by decide)), hthere.atEnd, hopen, hpiped, Bool.false_and,
        Bool.false_and, Bool.false_and, if_neg (by decide), if_neg (by decide), if_neg (by decide), if_neg (by decide),
        if_neg hjoins.ne_void]
      exact hmore.bind fun r e ⟨hr, hlast, he⟩ => Succeeds.pure ⟨⟨ht, hr⟩, hlast, he⟩

/-! ### Every script -/

mutual

theorem Script.readsBack (hd : d.Regular) : (s : Script) → s.ReadsBack d
  | .last u => .last (Clause.readsBack hd u)
  | .link u _ rest => .link hd (Clause.readsBack hd u) (Script.readsBack hd rest)

theorem Clause.readsBack (hd : d.Regular) : (u : Clause) → u.ReadsBack d
  | ⟨_, _, _, _, arguments, _, _⟩ => .of_arguments hd (phrasesReadBack hd arguments)

theorem phrasesReadBack (hd : d.Regular) : (as : List Phrase) → PhrasesReadBack d as
  | [] => .nil
  | a :: rest => .cons (Phrase.readsBack hd a) (phrasesReadBack hd rest)

theorem Phrase.readsBack (hd : d.Regular) : (a : Phrase) → a.ReadsBack d
  | .int n => .of_script hd (.int n) fun _ h => nomatch h
  | .bool b => .of_script hd (.bool b) fun _ h => nomatch h
  | .string s => .of_script hd (.string s) fun _ h => nomatch h
  | .read name t => .of_script hd (.read name t) fun _ h => nomatch h
  | .valueBlock s => .of_script hd (.valueBlock s) fun _ h => Option.some.inj h ▸ Script.readsBack hd s
  | .block s => .of_script hd (.block s) fun _ h => Option.some.inj h ▸ Script.readsBack hd s
  | .variable name => .of_script hd (.variable name) fun _ h => nomatch h

end

end KeyConsole.Console
