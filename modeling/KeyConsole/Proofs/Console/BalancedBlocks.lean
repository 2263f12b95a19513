import KeyConsole.Proofs.Console.GrammarRules
import Mathlib.Data.List.Basic

/-!
# Proofs.Console.BalancedBlocks: where a block ends

A block is cut off behind the first mark that closes it, with the marks in double quotes left out.  A list in
brackets is read to the end of its block: each item is a text that the scan for the closing bracket leaves as it
found it, so the reading of the items and the scan come to the same bracket.
-/

namespace KeyConsole.Console

open Text (size isBlank)

namespace Cursor

/-! ### The scan for the closing mark -/

/-- What a character does to the scan: how many blocks are open behind it, and the mode there.  Nothing is left to
scan for behind the mark that closes the last block. -/
def advance (opening closing : Char) (depth : Nat) : ScanMode → Char → Option (Nat × ScanMode)
  | .escaped, _ => some (depth, .quoted)
  | .quoted, x => some (depth, if x = '"' then .plain else if x = '\\' then .escaped else .quoted)
  | .plain, x =>
    if x = opening then some (depth + 1, .plain)
    else if x = closing then if depth ≤ 1 then none else some (depth - 1, .plain)
    else some (depth, if x = '"' then .quoted else .plain)

/-- The characters of a text outside double quotes.  In quotes a backslash takes the next character with it. -/
def outside : ScanMode → List Char → List Char
  | _, [] => []
  | .plain, x :: cs => if x = '"' then outside .quoted cs else x :: outside .plain cs
  | .quoted, x :: cs => outside (if x = '"' then .plain else if x = '\\' then .escaped else .quoted) cs
  | .escaped, _ :: cs => outside .quoted cs

/-- A text closes `depth` open blocks: outside double quotes, it has that many closing marks more than opening
ones. -/
def Closes (opening closing : Char) (depth : Nat) (mode : ScanMode) (text : List Char) : Prop :=
  (outside mode text).count closing = (outside mode text).count opening + depth

/-- A text closes `depth` open blocks, and no shorter beginning of it does. -/
structure ClosesFirst (opening closing : Char) (depth : Nat) (mode : ScanMode) (text : List Char) : Prop where
  closes : Closes opening closing depth mode text
  first : ∀ before after, text = before ++ after → after ≠ [] → ¬Closes opening closing depth mode before

variable {opening closing x : Char} {depth deeper : Nat} {mode onward : ScanMode} {cs text block after : List Char}

theorem splitBlock?_cons :
    splitBlock? opening closing depth mode (x :: cs) =
      match advance opening closing depth mode x with
      | none => some ([x], cs)
      | some (deeper, onward) =>
        (splitBlock? opening closing deeper onward cs).map fun found => (x :: found.1, found.2) := by
  cases mode with
  | escaped => rfl
  | quoted => rfl
  | plain =>
    simp only [splitBlock?, advance]
    split_ifs <;> rfl

/-- The scan ends behind its first character, or this is in front of what the scan of the others finds. -/
theorem splitBlock?_cases (h : splitBlock? opening closing depth mode (x :: cs) = some (block, after)) :
    (advance opening closing depth mode x = none ∧ block = [x] ∧ after = cs) ∨
      ∃ deeper onward inner, advance opening closing depth mode x = some (deeper, onward) ∧ block = x :: inner ∧
        splitBlock? opening closing deeper onward cs = some (inner, after) := by
  rw [splitBlock?_cons] at h
  cases hadvance : advance opening closing depth mode x with
  | none =>
    rw [hadvance] at h
    obtain ⟨rfl, rfl⟩ := Prod.mk.inj (Option.some.inj h)
    exact .inl ⟨rfl, rfl, rfl⟩
  | some next =>
    rw [hadvance] at h
    obtain ⟨⟨inner, behind⟩, hinner, heq⟩ := Option.map_eq_some_iff.mp h
    obtain ⟨rfl, rfl⟩ := Prod.mk.inj heq
    exact .inr ⟨next.1, next.2, inner, rfl, rfl, hinner⟩

/-- The scan ends only at a closing mark in plain text. -/
theorem closing_of_advance (h : advance opening closing depth mode x = none) :
    mode = .plain ∧ x = closing ∧ x ≠ opening ∧ depth ≤ 1 := by
  cases mode with
  | escaped => cases h
  | quoted => cases h
  | plain =>
    simp only [advance] at h
    split_ifs at h with hopens hcloses hlast
    exact ⟨rfl, hcloses, hopens, hlast⟩

theorem pos_of_advance (hdepth : 0 < depth) (h : advance opening closing depth mode x = some (deeper, onward)) :
    0 < deeper := by
  cases mode with
  | escaped =>
    cases h
    exact hdepth
  | quoted =>
    cases h
    exact hdepth
  | plain =>
    simp only [advance] at h
    split_ifs at h <;> cases h <;> omega

/-! ### Texts that close a block -/

theorem not_closes_nil (hdepth : 0 < depth) : ¬Closes opening closing depth mode [] := by
  intro h
  have hzero : 0 = 0 + depth := by
    cases mode <;> exact h
  omega

/-- One character in front of a text, if it does not close the last block. -/
theorem closesFirst_cons (hdepth : 0 < depth)
    (hstep : ∀ cs, Closes opening closing depth mode (x :: cs) ↔ Closes opening closing deeper onward cs) :
    ClosesFirst opening closing depth mode (x :: text) ↔ ClosesFirst opening closing deeper onward text := by
  constructor
  · rintro ⟨hcloses, hfirst⟩
    refine ⟨(hstep text).mp hcloses, fun before after heq hafter h => ?_⟩
    exact hfirst (x :: before) after (by rw [heq]; rfl) hafter ((hstep before).mpr h)
  · rintro ⟨hcloses, hfirst⟩
    refine ⟨(hstep text).mpr hcloses, fun before after heq hafter h => ?_⟩
    cases before with
    | nil => exact not_closes_nil hdepth h
    | cons y before =>
      obtain ⟨rfl, htext⟩ := List.cons_eq_cons.mp heq
      exact hfirst before after htext hafter ((hstep before).mp h)

/-- The mark that closes the last block closes it alone. -/
theorem closesFirst_cons_of_closes (hmark : Closes opening closing depth mode [x]) (hdepth : 0 < depth) :
    ClosesFirst opening closing depth mode (x :: text) ↔ text = [] := by
  constructor
  · rintro ⟨-, hfirst⟩
    by_contra hne
    exact hfirst [x] text rfl hne hmark
  · rintro rfl
    refine ⟨hmark, fun before after heq hafter h => ?_⟩
    cases before with
    | nil => exact not_closes_nil hdepth h
    | cons y before =>
      obtain ⟨-, heq⟩ := List.cons_eq_cons.mp heq
      exact hafter (List.append_eq_nil_iff.mp heq.symm).2

section

variable (hdistinct : opening ≠ closing) (hopening : opening ≠ '"') (hclosing : closing ≠ '"')

include hclosing

/-- The mark that ends the scan closes the blocks. -/
theorem closes_singleton (hdepth : 0 < depth) (h : advance opening closing depth mode x = none) :
    Closes opening closing depth mode [x] := by
  obtain ⟨rfl, rfl, hopens, hlast⟩ := closing_of_advance h
  have hone : depth = 1 := by omega
  simp only [Closes, outside, if_neg hclosing, List.count_cons_self, List.count_cons_of_ne hopens, List.count_nil, hone]

include hdistinct hopening

/-- Any other character leaves the blocks to close that are open behind it. -/
theorem closes_cons (h : advance opening closing depth mode x = some (deeper, onward))
    (cs : List Char) :
    Closes opening closing depth mode (x :: cs) ↔ Closes opening closing deeper onward cs := by
  cases mode with
  | escaped =>
    cases h
    exact Iff.rfl
  | quoted =>
    cases h
    exact Iff.rfl
  | plain =>
    simp only [advance] at h
    split_ifs at h with hopens hcloses hlast hquote
    · cases h
      subst hopens
      simp only [Closes, outside, if_neg hopening, List.count_cons_self, List.count_cons_of_ne hdistinct]
      omega
    · cases h
      subst hcloses
      simp only [Closes, outside, if_neg hclosing, List.count_cons_self, List.count_cons_of_ne hopens]
      omega
    · cases h
      simp only [Closes, outside, if_pos hquote]
    · cases h
      simp only [Closes, outside, if_neg hquote, List.count_cons_of_ne hopens, List.count_cons_of_ne hcloses]

/-- The scan stops behind the first beginning that closes the open blocks. -/
theorem splitBlock?_eq_some_iff (hdepth : 0 < depth) :
    splitBlock? opening closing depth mode cs = some (block, after) ↔
      cs = block ++ after ∧ ClosesFirst opening closing depth mode block := by
  induction cs generalizing depth mode block with
  | nil =>
    refine ⟨fun h => (by cases h), fun ⟨heq, hfirst⟩ => ?_⟩
    rw [(List.append_eq_nil_iff.mp heq.symm).1] at hfirst
    exact (not_closes_nil hdepth hfirst.closes).elim
  | cons x cs ih =>
    constructor
    · intro h
      rcases splitBlock?_cases h with ⟨hadvance, rfl, rfl⟩ | ⟨deeper, onward, inner, hadvance, rfl, hinner⟩
      · have hmark := closes_singleton hclosing hdepth hadvance
        exact ⟨rfl, (closesFirst_cons_of_closes hmark hdepth).mpr rfl⟩
      · obtain ⟨rfl, hfirst⟩ := (ih (pos_of_advance hdepth hadvance)).mp hinner
        exact ⟨rfl, (closesFirst_cons hdepth (closes_cons hdistinct hopening hclosing hadvance)).mpr hfirst⟩
    · rintro ⟨heq, hfirst⟩
      cases block with
      | nil => exact (not_closes_nil hdepth hfirst.closes).elim
      | cons y block =>
        obtain ⟨rfl, rfl⟩ := List.cons_eq_cons.mp heq
        rw [splitBlock?_cons]
        cases hadvance : advance opening closing depth mode x with
        | none =>
          have hmark := closes_singleton hclosing hdepth hadvance
          obtain rfl := (closesFirst_cons_of_closes hmark hdepth).mp hfirst
          rfl
        | some next =>
          have hstep := closes_cons hdistinct hopening hclosing hadvance
          have hinner := (ih (pos_of_advance hdepth hadvance)).mpr ⟨rfl, (closesFirst_cons hdepth hstep).mp hfirst⟩
          dsimp only
          rw [hinner]
          rfl

end

/-- If a text closes the open blocks, then some beginning of it is the first that does. -/
theorem Closes.exists_first (h : Closes opening closing depth mode text) :
    ∃ before, before <+: text ∧ ClosesFirst opening closing depth mode before := by
  induction hlength : text.length using Nat.strongRecOn generalizing text with
  | ind n ih =>
    by_cases hfirst : ∀ before after, text = before ++ after → after ≠ [] →
        ¬Closes opening closing depth mode before
    · exact ⟨text, List.prefix_refl text, h, hfirst⟩
    · push Not at hfirst
      obtain ⟨before, after, rfl, hafter, hbefore⟩ := hfirst
      have hshorter : before.length < n := by
        have hpos : 0 < after.length := List.length_pos_iff.mpr hafter
        rw [List.length_append] at hlength
        omega
      obtain ⟨least, hleast, hcloses⟩ := ih _ hshorter hbefore rfl
      exact ⟨least, hleast.trans (List.prefix_append before after), hcloses⟩

/-- The scan finds an end if some beginning of the text closes the open blocks. -/
theorem isSome_splitBlock?_iff (hdistinct : opening ≠ closing) (hopening : opening ≠ '"') (hclosing : closing ≠ '"')
    (hdepth : 0 < depth) :
    (splitBlock? opening closing depth mode cs).isSome ↔
      ∃ text, text <+: cs ∧ Closes opening closing depth mode text := by
  constructor
  · intro h
    obtain ⟨⟨block, after⟩, hsplit⟩ := Option.isSome_iff_exists.mp h
    obtain ⟨rfl, hfirst⟩ := (splitBlock?_eq_some_iff hdistinct hopening hclosing hdepth).mp hsplit
    exact ⟨block, List.prefix_append block after, hfirst.closes⟩
  · rintro ⟨text, htext, hcloses⟩
    obtain ⟨block, hblock, hfirst⟩ := hcloses.exists_first
    obtain ⟨after, hafter⟩ := hblock.trans htext
    rw [(splitBlock?_eq_some_iff hdistinct hopening hclosing hdepth).mpr ⟨hafter.symm, hfirst⟩]
    rfl

/-- A block ends with a closing mark. -/
theorem ends_of_splitBlock? (h : splitBlock? opening closing depth mode cs = some (block, after)) :
    ∃ inside, block = inside ++ [closing] := by
  induction cs generalizing depth mode block with
  | nil => cases h
  | cons x cs ih =>
    rcases splitBlock?_cases h with ⟨hadvance, rfl, -⟩ | ⟨deeper, onward, inner, -, rfl, hinner⟩
    · obtain ⟨-, rfl, -⟩ := closing_of_advance hadvance
      exact ⟨[], rfl⟩
    · obtain ⟨inside, rfl⟩ := ih hinner
      exact ⟨x :: inside, rfl⟩

/-! ### Cutting off a block -/

variable {c : Cursor} {space more : List Char}

/-- The scan begins behind blanks and an opening mark. -/
theorem slice?_eq_map (hspace : ∀ x ∈ space, c.isSpace x) (hopening : ¬c.isSpace opening)
    (hrest : c.rest = space ++ opening :: more) :
    c.slice? opening closing = (splitBlock? opening closing 1 .plain more).map fun (block, after) =>
      let start := c.offset + size space + opening.utf8Size
      ({ c with rest := block, offset := start, stop := start + size block, closers := [], fault := none,
                request := none },
        { c with rest := after, offset := start + size block }) := by
  have hupcoming : c.upcoming c.isSpace = space := by
    unfold upcoming
    rw [hrest, List.takeWhile_append_of_pos hspace, List.takeWhile_cons_of_neg hopening, List.append_nil]
  have hskip : c.skipSpace = { c with rest := opening :: more, offset := c.offset + size space } := by
    unfold skipSpace skip
    rw [hupcoming, hrest, List.dropWhile_append_of_pos hspace, List.dropWhile_cons_of_neg hopening]
  have heat : c.skipSpace.eat opening
      = (true, { c with rest := more, offset := c.offset + size space + opening.utf8Size }) := by
    rw [hskip]
    exact if_pos rfl
  unfold slice?
  rw [heat]
  rfl

/-- A block is cut off only where its opening mark stands behind blanks, and is none itself. -/
theorem opens_of_slice? (h : (c.slice? opening closing).isSome) :
    ∃ space more, (∀ x ∈ space, c.isSpace x) ∧ ¬c.isSpace opening ∧ c.rest = space ++ opening :: more := by
  have hpeek : c.skipSpace.rest.head? = some opening := by
    by_contra hother
    have hmissed : c.skipSpace.eat opening = (false, c.skipSpace) := if_neg hother
    unfold slice? at h
    rw [hmissed] at h
    cases h
  obtain ⟨more, hmore⟩ := List.head?_eq_some_iff.mp hpeek
  refine ⟨c.upcoming c.isSpace, more, List.all_eq_true.mp List.all_takeWhile, ?_, ?_⟩
  · have hstopped := List.head?_dropWhile_not c.isSpace c.rest
    have hskipped : c.rest.dropWhile c.isSpace = opening :: more := hmore
    rw [hskipped] at hstopped
    simpa using hstopped
  · have hpassed : c.rest = c.upcoming c.isSpace ++ c.skipSpace.rest := (advances_skip c.isSpace c).rest
    rw [hpassed, hmore]

/-- A block that is cut off, and the two cursors. -/
theorem exists_of_slice? {child after : Cursor} (h : c.slice? opening closing = some (child, after)) :
    ∃ space block, (∀ x ∈ space, c.isSpace x) ∧ c.rest = space ++ opening :: (block ++ after.rest) ∧
      splitBlock? opening closing 1 .plain (block ++ after.rest) = some (block, after.rest) ∧
      child = { c with
        rest := block
        offset := c.offset + size space + opening.utf8Size
        stop := c.offset + size space + opening.utf8Size + size block
        closers := []
        fault := none
        request := none } ∧
      after = { c with
        rest := after.rest
        offset := c.offset + size space + opening.utf8Size + size block } := by
  obtain ⟨space, more, hspace, hopening, hrest⟩ := opens_of_slice? (Option.isSome_iff_exists.mpr ⟨_, h⟩)
  rw [slice?_eq_map hspace hopening hrest] at h
  obtain ⟨⟨block, behind⟩, hsplit, heq⟩ := Option.map_eq_some_iff.mp h
  obtain ⟨rfl, rfl⟩ := Prod.mk.inj heq
  obtain rfl := append_of_splitBlock? hsplit
  exact ⟨space, block, hspace, hrest, hsplit, rfl, rfl⟩

/-! ### Texts with no bracket open -/

/-- The scan for a closing bracket comes out of a text as it went in. -/
def Balanced (text : List Char) : Prop :=
  ∀ (depth : Nat) (rest : List Char), 0 < depth →
    splitBlock? '[' ']' depth .plain (text ++ rest) =
      (splitBlock? '[' ']' depth .plain rest).map fun found => (text ++ found.1, found.2)

theorem Balanced.nil : Balanced [] := by
  intro depth rest _
  exact Option.map_id'.symm

theorem Balanced.append (h : Balanced text) (hmore : Balanced more) : Balanced (text ++ more) := by
  intro depth rest hdepth
  rw [List.append_assoc, h depth _ hdepth, hmore depth rest hdepth, Option.map_map]
  simp only [Function.comp_def, List.append_assoc]

/-- A character that the scan passes over. -/
def isOrdinary (x : Char) : Bool := x ≠ '[' && x ≠ ']' && x ≠ '"'

theorem Balanced.ordinary (h : ∀ x ∈ text, isOrdinary x) : Balanced text := by
  induction text with
  | nil => exact .nil
  | cons x cs ih =>
    have hx : x ≠ '[' ∧ x ≠ ']' ∧ x ≠ '"' := by
      simpa [isOrdinary, and_assoc] using h x List.mem_cons_self
    obtain ⟨hopening, hclosing, hquote⟩ := hx
    have hone : Balanced [x] := by
      intro depth rest _
      simp only [List.singleton_append, splitBlock?, if_neg hopening, if_neg hclosing, if_neg hquote]
    exact hone.append (ih fun y hy => h y (List.mem_cons_of_mem x hy))

theorem isOrdinary_of_isBlank (h : isBlank x) : isOrdinary x := by
  have hne : ∀ {y : Char}, isBlank y = false → x ≠ y := by
    rintro y hy rfl
    rw [hy] at h
    cases h
  simp only [isOrdinary, Bool.and_eq_true, decide_eq_true_eq]
  exact ⟨⟨hne (by decide), hne (by decide)⟩, hne (by decide)⟩

theorem Balanced.blank (h : ∀ x ∈ text, isBlank x) : Balanced text :=
  .ordinary fun x hx => isOrdinary_of_isBlank (h x hx)

/-- A text in quotes, from behind the opening quote on. -/
theorem quoted_of_unquote? {s : List Char} (h : Literal.unquote? cs = some (s, after)) :
    ∃ quoted, cs = quoted ++ after ∧ ∀ (depth : Nat) (rest : List Char),
      splitBlock? '[' ']' depth .quoted (quoted ++ rest) =
        (splitBlock? '[' ']' depth .plain rest).map fun found => (quoted ++ found.1, found.2) := by
  induction cs using Literal.unquote?.induct generalizing s with
  | case1 => cases h
  | case2 rest =>
    cases h
    exact ⟨['"'], rfl, fun depth rest => rfl⟩
  | case3 => cases h
  | case4 x rest ih =>
    obtain ⟨⟨inner, behind⟩, hinner, heq⟩ := Option.map_eq_some_iff.mp h
    obtain ⟨-, rfl⟩ := Prod.mk.inj heq
    obtain ⟨quoted, rfl, hscan⟩ := ih hinner
    refine ⟨'\\' :: x :: quoted, rfl, fun depth rest => ?_⟩
    simp only [List.cons_append, splitBlock?, if_neg (show '\\' ≠ '"' by decide), if_true, hscan, Option.map_map,
      Function.comp_def]
  | case5 x rest hquote hlast hescape ih =>
    have hslash : x ≠ '\\' := by
      intro heq
      cases rest with
      | nil => exact hlast heq rfl
      | cons y rest => exact hescape y rest heq rfl
    rw [Literal.unquote?] at h
    · obtain ⟨⟨inner, behind⟩, hinner, heq⟩ := Option.map_eq_some_iff.mp h
      obtain ⟨-, rfl⟩ := Prod.mk.inj heq
      obtain ⟨quoted, rfl, hscan⟩ := ih hinner
      refine ⟨x :: quoted, rfl, fun depth rest => ?_⟩
      simp only [List.cons_append, splitBlock?, if_neg hquote, if_neg hslash, hscan, Option.map_map,
        Function.comp_def]
    all_goals assumption

/-- With more blocks open around it, the scan goes on behind the mark that ended it. -/
theorem advance_deeper {outer : Nat} (houter : 0 < outer) (hdepth : 0 < depth) :
    advance opening closing (depth + outer) mode x =
      match advance opening closing depth mode x with
      | none => some (outer, .plain)
      | some (deeper, onward) => some (deeper + outer, onward) := by
  cases mode with
  | escaped => rfl
  | quoted => rfl
  | plain =>
    have hinside : ¬depth + outer ≤ 1 := by omega
    simp only [advance, if_neg hinside]
    by_cases hopens : x = opening
    · have hcomm : depth + outer + 1 = depth + 1 + outer := by omega
      simp only [if_pos hopens, hcomm]
    · by_cases hcloses : x = closing
      · by_cases hlast : depth ≤ 1
        · have hleft : depth + outer - 1 = outer := by omega
          simp only [if_neg hopens, if_pos hcloses, if_pos hlast, hleft]
        · have hleft : depth + outer - 1 = depth - 1 + outer := by omega
          simp only [if_neg hopens, if_pos hcloses, if_neg hlast, hleft]
      · simp only [if_neg hopens, if_neg hcloses]

/-- A text that closes some blocks closes them also inside others. -/
theorem splitBlock?_deeper {outer : Nat} {rest : List Char} (houter : 0 < outer) (hdepth : 0 < depth)
    (h : splitBlock? opening closing depth mode cs = some (block, after)) :
    splitBlock? opening closing (depth + outer) mode (block ++ rest) =
      (splitBlock? opening closing outer .plain rest).map fun found => (block ++ found.1, found.2) := by
  induction cs generalizing depth mode block with
  | nil => cases h
  | cons x cs ih =>
    rcases splitBlock?_cases h with ⟨hadvance, rfl, -⟩ | ⟨deeper, onward, inner, hadvance, rfl, hinner⟩
    · rw [List.singleton_append, splitBlock?_cons, advance_deeper houter hdepth, hadvance]
      rfl
    · rw [List.cons_append, splitBlock?_cons, advance_deeper houter hdepth, hadvance]
      dsimp only
      rw [ih (pos_of_advance hdepth hadvance) hinner, Option.map_map]
      rfl

theorem Balanced.quoted {s : List Char} (h : Literal.unquote? cs = some (s, after)) :
    ∃ quoted, cs = quoted ++ after ∧ Balanced ('"' :: quoted) := by
  obtain ⟨quoted, hcs, hscan⟩ := quoted_of_unquote? h
  refine ⟨quoted, hcs, fun depth rest _ => ?_⟩
  simp only [List.cons_append, splitBlock?, if_neg (show '"' ≠ '[' by decide), if_neg (show '"' ≠ ']' by decide),
    if_true, hscan, Option.map_map, Function.comp_def]

theorem Balanced.bracketed (h : splitBlock? '[' ']' 1 .plain cs = some (block, after)) : Balanced ('[' :: block) := by
  intro depth rest hdepth
  have hcomm : depth + 1 = 1 + depth := Nat.add_comm depth 1
  simp only [List.cons_append, splitBlock?, if_true, hcomm, splitBlock?_deeper hdepth Nat.one_pos h, Option.map_map,
    Function.comp_def]

end Cursor

/-- A character that is next is passed, any other is not. -/
theorem Reading.covers_eat (x : Char) (c : Cursor) :
    Reading.Covers c (Reading.eat x) fun text found e => if found then text = [x] else text = [] ∧ e = c := by
  intro found hfound
  obtain rfl : (c.eat x).1 = found := Option.some.inj hfound
  have hrun : (Reading.eat x).run.run c = (some (c.eat x).1, (c.eat x).2) := rfl
  by_cases hpeek : c.peek = some x
  · have heat : c.eat x = (true, c.next.2) := if_pos hpeek
    rw [hrun, heat]
    exact ⟨[x], (Cursor.advances_next_of_peek hpeek).passes, rfl⟩
  · have heat : c.eat x = (false, c) := if_neg hpeek
    rw [hrun, heat]
    exact ⟨[], .refl c, rfl, rfl⟩

/-! ### Literals and the scan -/

namespace Literal

open Reading Cursor

variable {c : Cursor} {t : ValueType} {item : Reading Value}

theorem balanced_word (c : Cursor) :
    Covers c (step (Cursor.word isLiteralChar)) fun text _ _ => Balanced text := by
  intro w _
  obtain ⟨space, hspace, hblank⟩ := advances_skipSpace c
  refine ⟨_, (hspace.trans (advances_skip isLiteralChar c.skipSpace)).passes, (Balanced.blank hblank).append ?_⟩
  refine Balanced.ordinary fun x hx => ?_
  have hx : isLiteralChar x := List.all_eq_true.mp List.all_takeWhile x hx
  have hne : ∀ {y : Char}, isLiteralChar y = false → x ≠ y := by
    rintro y hy rfl
    rw [hy] at hx
    cases hx
  simp only [isOrdinary, Bool.and_eq_true, decide_eq_true_eq]
  exact ⟨⟨hne (by decide), hne (by decide)⟩, hne (by decide)⟩

theorem balanced_skipSpace (c : Cursor) : Covers c skipSpace fun text _ _ => Balanced text := by
  intro _ _
  obtain ⟨space, hspace, hblank⟩ := advances_skipSpace c
  exact ⟨space, hspace.passes, .blank hblank⟩

theorem balanced_unreadable {α : Type} {start : Nat} {input : String} {P : List Char → α → Cursor → Prop} :
    Covers c (unreadable start input t : Reading α) P :=
  fun _ h => (yields_unreadable (P := fun _ => False) c _ h).elim

theorem balanced_scalar {value? : String → Option Value} :
    Covers c (scalar t value?) fun text _ _ => Balanced text := by
  unfold scalar
  refine Covers.look (Covers.bind (balanced_word c) fun text w e _ hbalanced => ?_)
  dsimp only
  split
  · exact Covers.pure (by rwa [List.append_nil])
  · exact balanced_unreadable

theorem balanced_text : Covers c text fun text _ _ => Balanced text := by
  unfold text
  refine Covers.look (Covers.bind (covers_eat '"' c) fun mark found e _ hmark => ?_)
  cases found with
  | true =>
    obtain rfl : mark = ['"'] := hmark
    refine Covers.get ?_
    split
    · rename_i s rest hsplit
      obtain ⟨quoted, hrest, hbalanced⟩ := Balanced.quoted hsplit
      have hsize : size e.rest - size rest = size quoted := by
        rw [hrest, Text.size_append, Nat.add_sub_cancel]
      have hpassed : e.Passes quoted { e with rest, offset := e.offset + (size e.rest - size rest) } :=
        ⟨hrest, by rw [hsize], rfl, rfl, rfl⟩
      exact Covers.set hpassed (Covers.pure (by rwa [List.append_nil]))
    · exact fun _ h => (Yields.next (Q := fun _ => False) (fun _ => yields_unreadable) e _ h).elim
  | false =>
    obtain ⟨rfl, rfl⟩ := hmark
    refine Covers.bind (balanced_word e) fun text w f _ hbalanced => ?_
    split
    · exact Covers.pure (by rwa [List.append_nil])
    · exact balanced_unreadable

/-- A list is cut off, and its items are read in its block. -/
theorem run_list (c : Cursor) :
    (list t item).run.run c =
      match c.slice? '[' ']' with
      | none => (unreadable c.offset ((c.peekWord isLiteralChar).getD "") t).run.run c
      | some (child, after) =>
        match (allItems t item []).run.run child with
        | (some vs, _) => (some (.list vs), after)
        | (none, last) => (none, after.absorb last) := by
  have hlooked : (list t item).run.run c = (match c.slice? '[' ']' with
      | none => (do unreadable c.offset (← wordAhead) t : Reading Value)
      | some (child, after) => do
        set after
        return .list (← inChild child (allItems t item []))).run.run c := rfl
  rw [hlooked]
  split
  · rfl
  · rename_i child after _
    have hread := run_inChild (x := allItems t item []) child after
    split at hread
    · rename_i vs last hitems
      rw [hitems]
      exact run_bind_some (congrArg Prod.fst hread) |>.trans (by rw [hread]; rfl)
    · rename_i last hitems
      rw [hitems]
      exact run_bind_none (congrArg Prod.fst hread) |>.trans (by rw [hread])

/-- What a bracketed block covers. -/
theorem balanced_slice? {child after : Cursor} (h : c.slice? '[' ']' = some (child, after)) :
    ∃ text, c.Passes text after ∧ Balanced text := by
  obtain ⟨space, block, hspace, hrest, hsplit, -, hafter⟩ := exists_of_slice? h
  have hsource : after.source = c.source ∧ after.stop = c.stop ∧ after.closers = c.closers := by
    rw [hafter]
    exact ⟨rfl, rfl, rfl⟩
  obtain ⟨hsource, hstop, hclosers⟩ := hsource
  refine ⟨space ++ '[' :: block, ⟨?_, ?_, hsource, hstop, hclosers⟩, ?_⟩
  · rw [hrest, List.append_assoc]
    rfl
  · rw [hafter, Text.size_append, Text.size_cons, ← Nat.add_assoc, ← Nat.add_assoc]
  · exact (Balanced.blank fun x hx => blank_of_isSpace (hspace x hx)).append (.bracketed hsplit)

theorem balanced_list : Covers c (list t item) fun text _ _ => Balanced text := by
  intro v hv
  rw [run_list] at hv ⊢
  split at hv
  · exact (yields_unreadable (P := fun _ => False) c v hv).elim
  · rename_i child after hslice
    split at hv
    · rename_i vs last hitems
      exact balanced_slice? hslice
    · cases hv

theorem balanced_bareWord : Covers c bareWord fun text _ _ => Balanced text := by
  unfold bareWord
  refine Covers.look (Covers.bind (balanced_word c) fun text w e _ hbalanced => ?_)
  split
  · exact Covers.pure (by rwa [List.append_nil])
  · exact balanced_unreadable

theorem balanced_form (literals : ValueType → Reading Value) (t : ValueType) :
    Covers c (form literals t) fun text _ _ => Balanced text := by
  unfold form
  have happend : ∀ {x : Reading Value}, (∀ c, Covers c x fun text _ _ => Balanced text) →
      Covers c (skipSpace >>= fun _ => x) fun text _ _ => Balanced text := by
    intro x hx
    refine Covers.bind (balanced_skipSpace c) fun space _ e _ hspace => ?_
    exact (hx e).mono fun _ _ _ _ htext => hspace.append htext
  cases t with
  | void => exact happend fun _ => Covers.look balanced_unreadable
  | int => exact happend fun _ => balanced_scalar
  | float => exact happend fun _ => balanced_scalar
  | bool => exact happend fun _ => balanced_scalar
  | string => exact happend fun _ => balanced_text
  | list element => exact happend fun _ => balanced_list
  | any =>
    refine happend fun e => Covers.look ?_
    split
    · exact balanced_list
    · exact balanced_text
    · exact balanced_bareWord

theorem balanced_nested (depth : Nat) (t : ValueType) : Covers c (nested depth t) fun text _ _ => Balanced text := by
  cases depth with
  | zero => exact .failure
  | succ depth => exact balanced_form (nested depth) t

/-! ### Items up to the closing bracket -/

/-- The range of the cursor is what is left of one block in brackets. -/
def Bounded (c : Cursor) : Prop := splitBlock? '[' ']' 1 .plain c.rest = some (c.rest, [])

theorem Bounded.passes {e : Cursor} {text : List Char} (h : Bounded c) (hpassed : c.Passes text e)
    (hbalanced : Balanced text) : Bounded e := by
  unfold Bounded at h ⊢
  rw [hpassed.rest, hbalanced 1 e.rest Nat.one_pos] at h
  obtain ⟨⟨block, after⟩, hsplit, heq⟩ := Option.map_eq_some_iff.mp h
  obtain ⟨hblock, hafter⟩ := Prod.mk.inj heq
  obtain rfl : after = [] := hafter
  obtain rfl : block = e.rest := List.append_cancel_left hblock
  exact hsplit

/-- The bracket that closes the block is its last character. -/
theorem Bounded.rest_eq_nil {e : Cursor} (h : Bounded c) (hpassed : c.Passes [']'] e) : e.rest = [] := by
  unfold Bounded at h
  rw [hpassed.rest] at h
  exact (Prod.mk.inj (Option.some.inj h)).2

theorem bounded_of_slice? {child after : Cursor} (h : c.slice? '[' ']' = some (child, after)) : Bounded child := by
  obtain ⟨space, block, -, -, hsplit, rfl, -⟩ := exists_of_slice? h
  have hspec := @splitBlock?_eq_some_iff '[' ']' 1 .plain
  obtain ⟨-, hfirst⟩ := (hspec (by decide) (by decide) (by decide) Nat.one_pos).mp hsplit
  exact (hspec (by decide) (by decide) (by decide) Nat.one_pos).mpr ⟨(List.append_nil block).symm, hfirst⟩

section

variable (hitem : ∀ c, Covers c item fun text _ _ => Balanced text)

include hitem

theorem covers_round {rest : List Value → Reading (List Value)}
    (hrest : ∀ {c} read, Bounded c → Covers c (rest read) fun _ _ e => e.rest = []) (read : List Value)
    (h : Bounded c) : Covers c (round t item rest read) fun _ _ e => e.rest = [] := by
  have hcomma : Balanced [','] := .ordinary fun x hx => by rw [List.mem_singleton.mp hx]; decide
  unfold round
  refine Covers.bind (balanced_skipSpace c) fun space _ a hspace hblank => ?_
  have ha := h.passes hspace hblank
  refine Covers.bind (covers_eat ']' a) fun mark closed b hmark hclosed => ?_
  cases closed with
  | true =>
    obtain rfl : mark = [']'] := hclosed
    exact Covers.pure (ha.rest_eq_nil hmark)
  | false =>
    obtain ⟨-, rfl⟩ := hclosed
    refine Covers.bind (hitem b) fun written v e hwritten hbalanced => ?_
    refine Covers.bind (balanced_skipSpace e) fun behind _ f hbehind hgap => ?_
    have hf := (ha.passes hwritten hbalanced).passes hbehind hgap
    refine Covers.bind (covers_eat ',' f) fun mark more g hmark hmore => ?_
    cases more with
    | true =>
      obtain rfl : mark = [','] := hmore
      exact hrest _ (hf.passes hmark hcomma)
    | false =>
      obtain ⟨-, rfl⟩ := hmore
      refine Covers.bind (covers_eat ']' g) fun mark closed last hmark hclosed => ?_
      cases closed with
      | true =>
        obtain rfl : mark = [']'] := hclosed
        exact Covers.pure (hf.rest_eq_nil hmark)
      | false => exact Covers.look (Covers.look .refuse)

theorem covers_items (n : Nat) (read : List Value) (h : Bounded c) :
    Covers c (items t item n read) fun _ _ e => e.rest = [] := by
  induction n generalizing c read with
  | zero => exact .failure
  | succ n ih => exact covers_round hitem ih read h

end

end Literal

open Cursor Literal in
/-- With marks that are distinct, no blanks and no double quotes, a block is cut off if and only if its opening mark
stands behind the blanks and some beginning of what follows closes the block.  The child ranges from behind the
opening mark through the first mark that closes the block, and the cursor comes to stand behind this mark.  Where
no list begins the cursor and its blocks stay as they were, and where a list is read, of whatever type its items
are, they take the whole range of the child, so that the cursor stands behind the closing bracket of the list. -/
theorem blocks_are_cut_off_exactly {opening closing : Char} (hdistinct : opening ≠ closing)
    (hblank : ¬isBlank opening ∧ ¬isBlank closing) (hquote : opening ≠ '"' ∧ closing ≠ '"') (c : Cursor) :
    ((c.slice? opening closing).isSome ↔ ∃ space text, (∀ x ∈ space, c.isSpace x) ∧
      space ++ opening :: text <+: c.rest ∧ Closes opening closing 1 .plain text) ∧
    (∀ child after, c.slice? opening closing = some (child, after) →
      ∃ space inside, (∀ x ∈ space, c.isSpace x) ∧
        c.rest = space ++ opening :: (inside ++ closing :: after.rest) ∧
        ClosesFirst opening closing 1 .plain (inside ++ [closing]) ∧
        child = { c with
          rest := inside ++ [closing]
          offset := c.offset + size (space ++ [opening])
          stop := c.offset + size (space ++ opening :: (inside ++ [closing]))
          closers := []
          fault := none
          request := none } ∧
        after = { c with rest := after.rest, offset := child.stop }) ∧
    (∀ t item, c.slice? '[' ']' = none → ∃ e, (list t item).run.run c = (none, e) ∧
      e.rest = c.rest ∧ e.offset = c.offset ∧ e.closers = c.closers) ∧
    ∀ t depth element v e, (list t (nested depth element)).run.run c = (some v, e) →
      ∃ child vs last, c.slice? '[' ']' = some (child, e) ∧ v = .list vs ∧
        (items t (nested depth element) (child.rest.length + 1) []).run.run child = (some vs, last) ∧
        last.rest = [] ∧ last.offset = child.stop := by
  refine ⟨⟨fun h => ?_, ?_⟩, fun child after h => ?_, fun t item h => ?_, fun t depth element v e h => ?_⟩
  · obtain ⟨⟨child, after⟩, hslice⟩ := Option.isSome_iff_exists.mp h
    obtain ⟨space, block, hspace, hrest, hsplit, -, -⟩ := exists_of_slice? hslice
    obtain ⟨-, hfirst⟩ := (splitBlock?_eq_some_iff hdistinct hquote.1 hquote.2 Nat.one_pos).mp hsplit
    refine ⟨space, block, hspace, ⟨after.rest, ?_⟩, hfirst.closes⟩
    rw [hrest, List.append_assoc, List.cons_append]
  · rintro ⟨space, text, hspace, ⟨more, hrest⟩, hcloses⟩
    have hopening : ¬c.isSpace opening := fun h => hblank.1 (blank_of_isSpace h)
    rw [List.append_assoc, List.cons_append] at hrest
    rw [slice?_eq_map hspace hopening hrest.symm, Option.isSome_map,
      isSome_splitBlock?_iff hdistinct hquote.1 hquote.2 Nat.one_pos]
    exact ⟨text, List.prefix_append text more, hcloses⟩
  · obtain ⟨space, block, hspace, hrest, hsplit, hchild, hafter⟩ := exists_of_slice? h
    obtain ⟨-, hfirst⟩ := (splitBlock?_eq_some_iff hdistinct hquote.1 hquote.2 Nat.one_pos).mp hsplit
    obtain ⟨inside, rfl⟩ := ends_of_splitBlock? hsplit
    have hstart : c.offset + size (space ++ [opening]) = c.offset + size space + opening.utf8Size := by
      rw [Text.size_append, Text.size_cons, Text.size_nil]
      omega
    have hstop : c.offset + size (space ++ opening :: (inside ++ [closing]))
        = c.offset + size space + opening.utf8Size + size (inside ++ [closing]) := by
      rw [Text.size_append, Text.size_cons]
      omega
    refine ⟨space, inside, hspace, ?_, hfirst, ?_, ?_⟩
    · rw [hrest, List.append_assoc, List.singleton_append]
    · rw [hchild, hstart, hstop]
    · rw [hchild]
      exact hafter
  · have hstays := passes_keepFault
      { cause := .unreadableArgument ((c.peekWord isLiteralChar).getD "") t.name
        span := some (.between c.offset (max c.offset (c.offset + 1))) } c
    refine ⟨_, by rw [run_list, h]; rfl, hstays.rest.symm, hstays.offset, hstays.closers⟩
  · rw [run_list] at h
    split at h
    · cases h
    · rename_i child after hslice
      split at h
      · rename_i vs last hitems
        rw [allItems, Reading.run_look] at hitems
        obtain ⟨hv, rfl⟩ := Prod.mk.inj h
        obtain rfl := Option.some.inj hv
        have hbounded := bounded_of_slice? hslice
        have hcovers := covers_items (t := t) (fun _ => balanced_nested depth element) (child.rest.length + 1) [] hbounded
        obtain ⟨text, hpassed, hnil⟩ := hcovers vs (by rw [hitems])
        rw [hitems] at hpassed hnil
        refine ⟨child, vs, last, hslice, rfl, hitems, hnil, ?_⟩
        have hrest : child.rest = text := by
          have happend := hpassed.rest
          rw [hnil, List.append_nil] at happend
          exact happend
        obtain ⟨space, block, -, -, -, hchild, -⟩ := exists_of_slice? hslice
        rw [hpassed.offset, ← hrest, hchild]
      · cases h

/-- The bracket in quotes does not close the list. -/
theorem list_ends_behind_quoted_bracket :
    ('[' ≠ ']' ∧ (¬isBlank '[' ∧ ¬isBlank ']') ∧ '[' ≠ '"' ∧ ']' ≠ '"') ∧
      ((Cursor.ofSource " [a, \"]\"] b").slice? '[' ']').isSome := by
  refine ⟨by decide, ?_⟩
  obtain ⟨hfound, -⟩ := @blocks_are_cut_off_exactly '[' ']' (by decide) (by decide) (by decide)
    (Cursor.ofSource " [a, \"]\"] b")
  refine hfound.mpr ⟨[' '], "a, \"]\"]".toList, List.forall_mem_singleton.mpr rfl, ?_, ?_⟩
  · exact ⟨" b".toList, rfl⟩
  · unfold Cursor.Closes
    decide

end KeyConsole.Console
