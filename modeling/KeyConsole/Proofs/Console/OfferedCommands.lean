import KeyConsole.Console.Completion
import KeyConsole.Proofs.Console.CommandHeads

/-!
# Proofs.Console.OfferedCommands: what is offered where a command begins

The commands that are offered are just those that are read: completion goes through the signatures one by one, while the
reading finds the name, the subcommand and the types, and lets the command resolve.
-/

namespace KeyConsole.Console

open Ordered (NameMap)
open Reading

variable {d : Directory} {piped : Option ValueType} {text name : String} {sub : Option String}

/-! ### Offered texts -/

/-- The texts that are offered where a command begins and nothing of it is typed. -/
def Directory.offered (d : Directory) (piped : Option ValueType) : List String :=
  (Completion.answer d (.commands piped "")).choices.map Choice.text

namespace Completion

variable {choices : List Choice}

/-- One more choice is kept if its text is new. -/
theorem texts_distinct_concat (choices : List Choice) (c : Choice) :
    (distinct (choices ++ [c])).map Choice.text
      = if c.text ∈ (distinct choices).map Choice.text then (distinct choices).map Choice.text
        else (distinct choices).map Choice.text ++ [c.text] := by
  have hconcat : distinct (choices ++ [c])
      = if (distinct choices).any (·.text = c.text) then distinct choices else distinct choices ++ [c] := by
    simp [distinct, List.foldl_append]
  have hany : (distinct choices).any (·.text = c.text) = true ↔ c.text ∈ (distinct choices).map Choice.text := by
    simp
  rw [hconcat]
  simp only [hany]
  split
  · rfl
  · exact List.map_append

theorem mem_distinct : text ∈ (distinct choices).map Choice.text ↔ text ∈ choices.map Choice.text := by
  induction choices using List.reverseRecOn with
  | nil => rfl
  | append_singleton choices c ih =>
    rw [texts_distinct_concat, List.map_append, List.map_singleton, List.mem_append, ← ih, List.mem_singleton]
    split
    · rename_i hold
      exact ⟨.inl, fun h => h.elim id fun hc => hc ▸ hold⟩
    · rw [List.mem_append, List.mem_singleton]

theorem nodup_distinct (choices : List Choice) : ((distinct choices).map Choice.text).Nodup := by
  induction choices using List.reverseRecOn with
  | nil => exact .nil
  | append_singleton choices c ih =>
    rw [texts_distinct_concat]
    split
    · exact ih
    · rename_i hnew
      exact List.nodup_append.mpr ⟨ih, List.nodup_singleton _, fun a ha b hb => by
        rw [List.mem_singleton.mp hb]
        rintro rfl
        exact hnew ha⟩

theorem map_text_ranked (choices : List Choice) :
    (ranked "" choices).map Choice.text = Ordered.sorted Ordered.textLe (choices.map Choice.text) := by
  have hempty : ("" : String).isEmpty = true := rfl
  unfold ranked
  rw [if_pos hempty]
  exact Ordered.map_insertAll (fun _ _ => rfl) choices []

end Completion

theorem Directory.offered_eq (d : Directory) (piped : Option ValueType) :
    d.offered piped = Ordered.sorted Ordered.textLe ((Completion.commandChoices d piped).map Choice.text) :=
  Completion.map_text_ranked _

/-- The offered texts ascend, so none is offered twice. -/
theorem Directory.pairwise_offered (d : Directory) (piped : Option ValueType) :
    (d.offered piped).Pairwise (· < ·) := by
  rw [d.offered_eq]
  have hperm := Ordered.perm_sorted Ordered.textLe ((Completion.commandChoices d piped).map Choice.text)
  have hnodup := hperm.nodup_iff.mpr (Completion.nodup_distinct _)
  have horder := Ordered.inOrder_sorted Ordered.ranks_textLe ((Completion.commandChoices d piped).map Choice.text)
  exact horder.imp₂ (fun a b hle hne => lt_of_le_of_ne (Ordered.textLe_iff.mp hle) hne) hnodup

theorem Directory.mem_offered : text ∈ d.offered piped ↔ ∃ command ∈ d.commands.values, ∃ s ∈ command.signatures,
    s.accepts piped ∧ Command.fullName command.name s.subcommand = text := by
  rw [d.offered_eq, (Ordered.perm_sorted _ _).mem_iff, Completion.commandChoices, Completion.mem_distinct]
  simp [Completion.commandChoicesOf, Choice.described, and_assoc]

/-! ### Offered commands resolve -/

/-- A name and a subcommand are told apart in the text that they make. -/
theorem IsFullName.inj {name' : String} {sub' : Option String} (h : IsFullName name sub) (h' : IsFullName name' sub')
    (heq : Command.fullName name sub = Command.fullName name' sub') : name = name' ∧ sub = sub' := by
  have htake : ∀ {n s}, IsFullName n s → (Command.fullName n s).toList.takeWhile isCommandChar = n.toList := by
    intro n s hn
    have hnone : (subcommandText s).takeWhile isCommandChar = [] := by cases s <;> rfl
    rw [toList_fullName, List.takeWhile_append_of_pos hn.nameWord.2, hnone, List.append_nil]
  have hname : name = name' := String.toList_inj.mp (by rw [← htake h, ← htake h', heq])
  refine ⟨hname, ?_⟩
  have htexts : subcommandText sub = subcommandText sub' := by
    have hall := congrArg String.toList heq
    rw [toList_fullName, toList_fullName, hname] at hall
    exact List.append_cancel_left hall
  cases sub with
  | none => cases sub' with
    | none => rfl
    | some s' => cases htexts
  | some s => cases sub' with
    | none => cases htexts
    | some s' => rw [String.toList_inj.mp (List.cons.inj htexts).2]

section

variable {cs : List Command} {newlineEnds : Bool}
  (hcommands : ∀ command ∈ (Directory.registered cs newlineEnds).commands.values, command.Regular)

include hcommands

theorem Directory.regular_registered : (Directory.registered cs newlineEnds).Regular := by
  intro name command hcommand
  obtain ⟨hmem, hname⟩ := get?_registered hcommand
  exact ⟨hname, hcommands command hmem⟩

/-- A command is offered just if it is found and resolves. -/
theorem Directory.fullName_mem_offered_iff (hname : IsFullName name sub) :
    Command.fullName name sub ∈ (Directory.registered cs newlineEnds).offered piped ↔
      ∃ command, (Directory.registered cs newlineEnds).get? name = some command ∧
        (command.resolve? sub piped (command.typeCount sub)).isSome := by
  rw [mem_offered]
  constructor
  · rintro ⟨command, hcommand, s, hs, haccepts, htext⟩
    have hregular := hcommands command hcommand
    obtain ⟨rfl, rfl⟩ := (hregular.isFullName hs).inj hname htext
    exact ⟨command, get?_name hcommand,
      Command.isSome_resolve?_iff.mpr ⟨s, hs, rfl, (hregular.typeCount s hs).symm, haccepts⟩⟩
  · rintro ⟨command, hcommand, hresolve⟩
    obtain ⟨s, hs, rfl, -, haccepts⟩ := Command.isSome_resolve?_iff.mp hresolve
    obtain ⟨hmem, rfl⟩ := get?_registered hcommand
    exact ⟨command, hmem, s, hs, haccepts, rfl⟩

end

/-! ### Offered commands are read -/

/-- In a directory of regular commands, whatever is piped, the texts that are offered where a command begins ascend, and
each is a name with or without a subcommand.  Such a text, with spellings of as many types behind it as belong there,
is offered just if the head of a command is read from it: of this name, with this subcommand and these types, and up to
what stands behind them.  If it is not offered, the reading fails since the command or its subcommand is not known or no
signature takes what is piped.  This is said of a text that is taken for the name of a command and has a subcommand
just if the command has some: else there is no subcommand to read, or another command is read in front of it. -/
theorem offered_commands_are_read {cs : List Command} {newlineEnds : Bool} (hd : d = .registered cs newlineEnds)
    (hcommands : ∀ command ∈ d.commands.values, command.Regular) (piped : Option ValueType) :
    (d.offered piped).Pairwise (· < ·) ∧
    (∀ text ∈ d.offered piped, ∃ name sub, IsFullName name sub ∧ text = Command.fullName name sub) ∧
    ∀ name sub, IsFullName name sub → ∀ words types, words.map ValueType.ofName? = types.map some →
      types.length = (d.get? name).elim 0 (·.typeCount sub) →
      ∀ (c : Cursor) closers known more, c.BeginsCommand closers known name sub words more →
        (Command.fullName name sub ∈ d.offered piped ↔ Succeeds c (commandHead d piped) fun head e =>
          head.name = name ∧ head.subcommand = sub ∧ head.types = types ∧ e.Faces closers known more) ∧
        (Command.fullName name sub ∉ d.offered piped → IsCallable name sub →
          (∀ command ∈ d.get? name, sub.isSome = command.hasSubcommands) →
          ∃ cause, Unresolved name sub piped cause ∧
            ∀ nested start, Refuses c (command d nested piped start) cause) := by
  have hregular : d.Regular := hd ▸ Directory.regular_registered (hd ▸ hcommands)
  have hoffered : ∀ name sub, IsFullName name sub → (Command.fullName name sub ∈ d.offered piped ↔
      ∃ command, d.get? name = some command ∧ (command.resolve? sub piped (command.typeCount sub)).isSome) :=
    fun name sub hname => hd ▸ Directory.fullName_mem_offered_iff (hd ▸ hcommands) hname
  refine ⟨d.pairwise_offered piped, fun text htext => ?_, fun name sub hname words types hwords hcount c closers known
    more hc => ⟨?_, fun hnot hcallable hform => ?_⟩⟩
  · obtain ⟨command, hcommand, s, hs, -, rfl⟩ := Directory.mem_offered.mp htext
    exact ⟨_, _, (hcommands command hcommand).isFullName hs, rfl⟩
  · rw [hoffered name sub hname]
    exact (hc.succeeds_iff hregular hwords hcount).symm
  · have hnone : ∀ command ∈ d.get? name, command.resolve? sub piped (command.typeCount sub) = none := by
      intro command hcommand
      rw [← Option.not_isSome_iff_eq_none]
      exact fun hresolve => hnot ((hoffered name sub hname).mpr ⟨command, hcommand, hresolve⟩)
    obtain ⟨cause, hcause, hrefuses⟩ := hc.refuses_unresolved hregular hcallable hform hwords hcount hnone
    refine ⟨cause, hcause, fun nested start => ?_⟩
    exact hrefuses.first

theorem offered_commands_are_read_builtin :
    "val" ∈ (Directory.builtinWith false).offered none ∧
    (Succeeds (Cursor.ofSource "val List<Str> $x") (commandHead (.builtinWith false) none) fun head e =>
      head.name = "val" ∧ head.types = [.list .string] ∧ e.rest = " $x".toList) ∧
    ∃ cause, Unresolved "math" (some "neg") (some .string) cause ∧ ∀ nested start,
      Refuses (Cursor.ofSource "math:neg") (command (.builtinWith false) nested (some .string) start) cause := by
  have hcommands : ∀ command ∈ (Directory.builtinWith false).commands.values, command.Regular := fun command h =>
    (Directory.regular_builtinWith false _ _ (Directory.get?_name h)).2
  have hval : IsFullName "val" none := ⟨by decide, nofun⟩
  have hmath : IsCallable "math" (some "neg") := ⟨⟨by decide, by decide⟩, by decide, by decide⟩
  obtain ⟨-, -, hnothing⟩ := offered_commands_are_read (d := .builtinWith false) rfl hcommands none
  obtain ⟨-, -, hstring⟩ := offered_commands_are_read (d := .builtinWith false) rfl hcommands (some .string)
  have hoffered : "val" ∈ (Directory.builtinWith false).offered none := by decide +kernel
  have hvalBegins : (Cursor.ofSource "val List<Str> $x").BeginsCommand [] .empty "val" none ["List<Str>"] " $x".toList :=
    Cursor.beginsCommand_ofSource (by decide +kernel) hval (by decide)
  have hmathBegins : (Cursor.ofSource "math:neg").BeginsCommand [] .empty "math" (some "neg") [] [] :=
    Cursor.beginsCommand_ofSource (by decide +kernel) hmath.toIsFullName (by decide)
  obtain ⟨hread, -⟩ := hnothing "val" none hval ["List<Str>"] [.list .string] (by decide +kernel) (by decide +kernel)
    _ _ _ _ hvalBegins
  obtain ⟨-, hrefused⟩ := hstring "math" (some "neg") hmath.toIsFullName [] [] rfl (by decide +kernel)
    _ _ _ _ hmathBegins
  have hform : ((Directory.builtinWith false).get? "math").all (·.hasSubcommands) = true := by decide +kernel
  refine ⟨hoffered, (hread.mp hoffered).mono fun head e ⟨hname, _, htypes, he⟩ => ⟨hname, htypes, he.rest⟩, ?_⟩
  refine hrefused (by decide +kernel) hmath fun command hcommand => ?_
  rw [Option.mem_def.mp hcommand] at hform
  exact hform.symm

end KeyConsole.Console
