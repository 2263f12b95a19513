import KeyConsole.Proofs.Console.Canonical.ReadBack

/-!
# Proofs.Console.Canonical.Completeness: built-in commands are read back

Every well-typed script of built-in commands is read back from its canonical text.  Lists of void have no text among
the types: where a type argument has one, the text is refused.
-/

namespace KeyConsole.Console

open Ordered (NameMap)
open Reading

/-- The start of an expression faces its text. -/
theorem Directory.faces_cursor (d : Directory) (s : Script) (known : NameMap ValueType) :
    (d.cursor s.text known).Faces [] known (joined (s.words ++ [])) := by
  have htext : s.text.toList = joined (s.words ++ []) := by
    rw [List.append_nil]
    exact toList_intercalate_space s.words
  refine ⟨htext, ?_, rfl, rfl, rfl⟩
  rw [← htext]
  exact (Nat.zero_add _).symm

/-- Reading the canonical text of a well-typed script of built-in commands yields the script. -/
theorem canonical_texts_are_read_back {newlineEnds : Bool} {known after : NameMap ValueType} {s : Script}
    (hfits : s.Fits (Directory.builtinWith newlineEnds) known after)
    (hwritable : ∀ t ∈ s.typeArguments, t.isWritable = true) :
    ∃ p, (Directory.builtinWith newlineEnds).read s.text s.piped known = .ok p ∧ p.Is s := by
  have hd := Directory.regular_builtinWith newlineEnds
  generalize Directory.builtinWith newlineEnds = d at hfits hd ⊢
  have hfaces := d.faces_cursor s known
  have hskip := hfaces.skipNone (hfits.begins hd []).stopsAt_isBlank
  have hlength : (d.cursor s.text known).rest.length = (joined (s.words ++ [])).length :=
    congrArg List.length hfaces.rest
  have hwhole : Succeeds (d.cursor s.text known) (whole d s.piped) fun p _ => p.Is s := by
    unfold whole
    refine Succeeds.look ?_
    rw [hlength]
    have hs := Script.readsBack hd s
    exact Succeeds.mono (hs.succeeds_pipeline hd hfits hwritable hskip (by rintro x ⟨⟩) (Or.inl rfl)
      (Nat.lt_succ_self _) (by rintro t ⟨⟩)) fun p e h => h.1
  obtain ⟨p, hp, his⟩ := hwhole
  refine ⟨p, ?_, his⟩
  unfold Directory.read
  split
  · rename_i q e hrun
    rw [hrun] at hp
    exact congrArg Except.ok (Option.some.inj hp)
  · rename_i e hrun
    rw [hrun] at hp
    cases hp

/-- The script of `+ { i 2 }`. -/
def addTwo : Script :=
  .last ⟨false, "+", none, [], [.valueBlock (.last ⟨false, "i", none, [], [.int 2], none, .int⟩)], some .int, .int⟩

/-- The script of `i 3 | iota | map { + { i 2 } } | => $xs ; not val list<int> $xs count ; echo "a \"b\""`. -/
def nestedScript : Script :=
  .link ⟨false, "i", none, [], [.int 3], none, .int⟩ .bar <|
  .link ⟨false, "iota", none, [], [], some .int, .list .int⟩ .bar <|
  .link ⟨false, "map", none, [], [.block addTwo], some (.list .int), .list .int⟩ .bar <|
  .link ⟨false, "=>", none, [], [.variable "xs"], some (.list .int), .list .int⟩ .semicolon <|
  .link ⟨true, "val", none, [.list .int], [.variable "xs"], none, .list .int⟩ .space <|
  .link ⟨false, "count", none, [], [], some (.list .int), .int⟩ .semicolon <|
  .last ⟨false, "echo", none, [], [.string "a \"b\""], none, .void⟩

/-- The return type of a command, computed or not. -/
theorem Clause.Fits.returning {d : Directory} {known after : NameMap ValueType} {inverted : Bool} {name : String}
    {subcommand : Option String} {types : List ValueType} {arguments : List Phrase} {piped : Option ValueType}
    {returns : ValueType} {command : Command} {signature : Signature} {blocks : List ValueType}
    {variableTypes : List (Option ValueType)} (hcommand : d.get? name = some command)
    (hsignature : command.resolve? subcommand piped types.length = some signature)
    (harguments : PhrasesFit d piped known signature.parameters arguments after blocks variableTypes)
    (hreturns : signature.returns.type { piped, types, blocks, variableTypes } = returns) :
    Clause.Fits d known ⟨inverted, name, subcommand, types, arguments, piped, returns⟩ after := by
  subst hreturns
  exact .mk hcommand hsignature harguments

theorem fits_addTwo (known : NameMap ValueType) : addTwo.Fits (Directory.builtinWith false) known known := by
  have hinner : Script.Fits (Directory.builtinWith false) known
      (.last ⟨false, "i", none, [], [.int 2], none, .int⟩) known :=
    .last (.returning rfl rfl (.cons .int .nil) rfl)
  exact .last (.returning rfl rfl (.cons (.valueBlock hinner rfl rfl) .nil) rfl)

theorem fits_nestedScript :
    nestedScript.Fits (Directory.builtinWith false) .empty (NameMap.empty.put "xs" (.list .int)) := by
  unfold nestedScript
  refine .link (.returning rfl rfl (.cons .int .nil) rfl) ⟨rfl, by decide⟩ ?_
  refine .link (.returning rfl rfl .nil rfl) ⟨rfl, by decide⟩ ?_
  refine .link (.returning rfl rfl (.cons (.block (fits_addTwo _) rfl (by decide)) .nil) rfl)
    ⟨rfl, by decide⟩ ?_
  refine .link (.returning rfl rfl (.cons (.assign (by decide)) .nil) rfl) rfl ?_
  refine .link (.returning rfl rfl (.cons (.variable (by decide)) .nil) rfl) ⟨rfl, by decide⟩ ?_
  refine .link (.returning rfl rfl .nil rfl) rfl ?_
  exact .last (.returning rfl rfl (.cons .string .nil) rfl)

theorem canonical_texts_are_read_back_nestedBlocks :
    (∃ after, nestedScript.Fits (Directory.builtinWith false) .empty after) ∧
      (∀ t ∈ nestedScript.typeArguments, t.isWritable = true) ∧
      ∃ p, (Directory.builtinWith false).read
        ("i 3 | iota | map \x7b + \x7b i 2 \x7d \x7d | => $xs ; not val list<int> $xs "
          ++ "count ; echo \"a \\\"b\\\"\"") none .empty = .ok p ∧ p.Is nestedScript := by
  have htext : nestedScript.text = "i 3 | iota | map \x7b + \x7b i 2 \x7d \x7d | => $xs ; not val list<int> $xs "
      ++ "count ; echo \"a \\\"b\\\"\"" := by decide +kernel
  have hwritable : ∀ t ∈ nestedScript.typeArguments, t.isWritable = true := by decide
  have hread := canonical_texts_are_read_back fits_nestedScript hwritable
  rw [htext] at hread
  exact ⟨⟨_, fits_nestedScript⟩, hwritable, hread⟩

/-- The script of `val list<void> $x`. -/
def listOfVoidScript : Script := .last ⟨false, "val", none, [.list .void], [.variable "x"], none, .list .void⟩

/-- A type argument that is a list of void fits, but the name of such a type is refused. -/
theorem list_of_void_is_not_read_back :
    (∃ after, listOfVoidScript.Fits (Directory.builtinWith false) .empty after) ∧
      listOfVoidScript.text = "val list<void> $x" ∧
      ∀ p, (Directory.builtinWith false).read listOfVoidScript.text listOfVoidScript.piped .empty ≠ .ok p := by
  have hfits : listOfVoidScript.Fits (Directory.builtinWith false) .empty .empty :=
    .last (.returning rfl rfl (.cons (.variable (by decide)) .nil) rfl)
  refine ⟨⟨_, hfits⟩, by decide +kernel, ?_⟩
  have hchecked : ((Directory.builtinWith false).read listOfVoidScript.text listOfVoidScript.piped
      .empty).toOption.isNone = true := by decide +kernel
  intro p hp
  rw [hp] at hchecked
  cases hchecked

end KeyConsole.Console
