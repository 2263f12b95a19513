import KeyConsole.Proofs.Console.ParallelPipelines
import KeyConsole.Proofs.Console.Resolution

/-!
# Proofs.Console.AgreeingReadings: ways to read an expression that agree

While requests are kept for completion an expression is read as it is otherwise, unless the text ends with the name
of a command.  Where newlines end commands, an expression without quoted texts may have semicolons for its newlines.
-/

namespace KeyConsole.Console

open Text (size)
open Reading

variable {d : Directory} {source : String} {piped : Option ValueType} {known : Ordered.NameMap ValueType}

theorem Directory.read_of_run {p : Pipeline} {c : Cursor}
    (h : (Reading.whole d piped).run.run (d.cursor source known) = (some p, c)) :
    d.read source piped known = .ok p := by
  unfold Directory.read
  rw [h]

theorem Directory.read_of_run_none {c : Cursor}
    (h : (Reading.whole d piped).run.run (d.cursor source known) = (none, c)) :
    ∃ f, d.read source piped known = .error f := by
  unfold Directory.read
  rw [h]
  exact ⟨_, rfl⟩

/-! ### Completion -/

/-- What is read of an expression while requests are kept. -/
def Directory.readCompleting? (d : Directory) (source : String) (piped : Option ValueType)
    (known : Ordered.NameMap ValueType) : Option Pipeline :=
  ((Reading.whole d piped).run.run { d.cursor source known with completing := true }).1

/-- A text read without and with requests. -/
def TwoReadings.completion (ends : Bool) (source : String) : TwoReadings ends :=
  { Respelling.same with source, source' := source, completing := true }

theorem TwoReadings.char_completion (ends : Bool) (source : String) :
    (TwoReadings.completion ends source).char '\n' ≠ ';' := by
  have hne : '\n' ≠ ';' := by decide
  exact hne

theorem Directory.alike_completing (d : Directory) (source : String) (known : Ordered.NameMap ValueType) :
    Cursor.Alike (TwoReadings.completion d.newlineEnds source) (size source.toList) (d.cursor source known)
      { d.cursor source known with completing := true } where
  rest := (List.map_id source.toList).symm
  offset := rfl
  source := rfl
  source' := rfl
  stop := rfl
  stop' := rfl
  closers := rfl
  braces := fun _ hmark => (List.not_mem_nil hmark).elim
  newlineEnds := rfl
  newlineEnds' := rfl
  known := rfl
  plain := rfl
  completing' := rfl
  unquoted := fun hspelled => absurd hspelled (TwoReadings.char_completion _ _)
  placed := ⟨[], [], (List.append_nil _).symm, rfl, (Nat.zero_add _).symm⟩

/-- Completion reads what is read otherwise, and fails where reading fails.  Alone it fails only if the text ends
directly behind the name of a command, with its subcommand, that takes nothing. -/
theorem completion_reads_alike (d : Directory) (source : String) (piped : Option ValueType)
    (known : Ordered.NameMap ValueType) :
    (∀ p, d.readCompleting? source piped known = some p → d.read source piped known = .ok p) ∧
      (∀ f, d.read source piped known = .error f → d.readCompleting? source piped known = none) ∧
      (∀ p, d.read source piped known = .ok p → d.readCompleting? source piped known = none →
        p.Has (Step.Closes source)) := by
  have hnot : (TwoReadings.completion d.newlineEnds source).char '\n' = ';' → d.get? "not" = none :=
    fun hspelled => absurd hspelled (TwoReadings.char_completion _ _)
  have hagree := agree_whole hnot (d.alike_completing source known) piped
  unfold Agree at hagree
  unfold Directory.readCompleting?
  cases hrun : (whole d piped).run.run (d.cursor source known) with
  | mk outcome e =>
  generalize (whole d piped).run.run { d.cursor source known with completing := true } = completed at hagree
  rw [hrun] at hagree
  cases hagree with
  | @both p p' _ e' hp he =>
    have hread : d.read source piped known = .ok p := Directory.read_of_run hrun
    have hsame : p' = p := hp.trans (Pipeline.resourced_of_from (Directory.read_from hread))
    refine ⟨fun q hq => ?_, fun f hf => ?_, fun q _ hnone => ?_⟩
    · rw [hread, ← hsame, Option.some.inj hq]
    · rw [hread] at hf
      cases hf
    · cases hnone
  | neither =>
    obtain ⟨f, hf⟩ := Directory.read_of_run_none hrun
    refine ⟨fun q hq => ?_, fun _ _ => rfl, fun q hq _ => ?_⟩
    · cases hq
    · rw [hf] at hq
      cases hq
  | @first p _ e' hw hend hp =>
    have hread : d.read source piped known = .ok p := Directory.read_of_run hrun
    refine ⟨fun q hq => ?_, fun _ _ => rfl, fun q hq _ => ?_⟩
    · cases hq
    · rw [hread] at hq
      cases hq
      exact hp

/-- Behind the name of a command completion waits for more, though nothing belongs there. -/
example :
    ((Directory.builtinWith false).read "i 2 | iota | where even" none {}).toOption.isSome ∧
      (Directory.builtinWith false).readCompleting? "i 2 | iota | where even" none {} = none := by
  refine ⟨by decide +kernel, Option.isNone_iff_eq_none.mp (by decide +kernel)⟩

/-! ### Newlines that end commands -/

/-- The text with semicolons for its newlines. -/
def withSemicolons (source : String) : String :=
  String.ofList (source.toList.map fun x => if x = '\n' then ';' else x)

/-- A text and its spelling with semicolons. -/
def TwoReadings.newlines (source : String) : TwoReadings true :=
  { Respelling.semicolons with source, source' := withSemicolons source, completing := false }

theorem Directory.alike_semicolons (hends : d.newlineEnds = true) (hquote : '"' ∉ source.toList)
    (known : Ordered.NameMap ValueType) :
    Cursor.Alike (TwoReadings.newlines source) (size source.toList) (d.cursor source known)
      (d.cursor (withSemicolons source) known) where
  rest := String.toList_ofList
  offset := rfl
  source := rfl
  source' := rfl
  stop := rfl
  stop' := (congrArg size String.toList_ofList).trans (Respelling.semicolons.size_map source.toList)
  closers := rfl
  braces := fun _ hmark => (List.not_mem_nil hmark).elim
  newlineEnds := hends
  newlineEnds' := hends
  known := rfl
  plain := rfl
  completing' := rfl
  unquoted := fun _ => hquote
  placed := ⟨[], [], (List.append_nil _).symm, rfl, (Nat.zero_add _).symm⟩

/-- Where newlines end commands, a text without double quotes is read as with semicolons for its newlines: as the same
pipeline apart from its source, or not at all.  There must be no command `not`, which a semicolon would separate from
a word that follows. -/
theorem newlines_read_as_semicolons (hends : d.newlineEnds = true) (hnot : d.get? "not" = none)
    (hquote : '"' ∉ source.toList) :
    (d.read (withSemicolons source) piped known).toOption
      = (d.read source piped known).toOption.map (Pipeline.resourced (withSemicolons source)) := by
  have hagree := agree_whole (fun _ => hnot) (d.alike_semicolons hends hquote known) piped
  unfold Agree at hagree
  cases hrun : (whole d piped).run.run (d.cursor source known) with
  | mk outcome e =>
  cases hrun' : (whole d piped).run.run (d.cursor (withSemicolons source) known) with
  | mk outcome' e' =>
  rw [hrun, hrun'] at hagree
  cases hagree with
  | both hp he =>
    rw [Directory.read_of_run hrun, Directory.read_of_run hrun', hp]
    rfl
  | neither =>
    obtain ⟨f, hf⟩ := Directory.read_of_run_none hrun
    obtain ⟨f', hf'⟩ := Directory.read_of_run_none hrun'
    rw [hf, hf']
    rfl
  | first hw _ _ => cases hw

theorem newlines_read_as_semicolons_threeLines :
    let d := Directory.builtinWith true
    let source := "i 2 | iota | map \x7b + 1\n\x7d | => $n\nval list<int> $n"
    d.newlineEnds = true ∧ d.get? "not" = none ∧ '"' ∉ source.toList ∧ (d.read source none {}).toOption.isSome ∧
      (d.read (withSemicolons source) none {}).toOption
        = (d.read source none {}).toOption.map (Pipeline.resourced (withSemicolons source)) := by
  intro d source
  have hnot : d.get? "not" = none := Option.isNone_iff_eq_none.mp (by decide +kernel)
  have hquote : '"' ∉ source.toList := by decide
  exact ⟨rfl, hnot, hquote, by decide +kernel, newlines_read_as_semicolons rfl hnot hquote⟩

end KeyConsole.Console
