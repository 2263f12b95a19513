import KeyConsole.Proofs.Console.Passage

/-!
# Proofs.Console.Respelling: two spellings of one text

A respelling leaves the characters of a text as they are, but may write newlines that end commands as semicolons.
Two cursors are alike if they stand at the same place of two spellings of a text, with the same blocks open and the
same variables known; one of them may keep requests while the other does not.  Whatever the cursors are asked, they
give the same answers and stay alike.
-/

namespace KeyConsole.Console

open Text (size isBlank)

/-- A way to spell texts: newlines that end commands may become semicolons, and all else stays. -/
structure Respelling (newlineEnds : Bool) where
  char : Char → Char
  law : ∀ x, char x = x ∨ newlineEnds = true ∧ x = '\n' ∧ char x = ';'

namespace Respelling

variable {newlineEnds : Bool}

/-- All characters stay. -/
def same : Respelling newlineEnds := ⟨id, fun _ => Or.inl rfl⟩

/-- Every newline becomes a semicolon. -/
def semicolons : Respelling true where
  char x := if x = '\n' then ';' else x
  law x := by
    by_cases hx : x = '\n'
    · exact Or.inr ⟨rfl, hx, if_pos hx⟩
    · exact Or.inl (if_neg hx)

variable (w : Respelling newlineEnds)

/-- A respelling that leaves the newline leaves everything. -/
theorem char_eq_self (h : w.char '\n' ≠ ';') (x : Char) : w.char x = x := by
  rcases w.law x with hx | ⟨-, rfl, hx⟩
  · exact hx
  · exact absurd hx h

theorem map_eq_self (h : w.char '\n' ≠ ';') (cs : List Char) : cs.map w.char = cs := by
  induction cs with
  | nil => rfl
  | cons x cs ih => rw [List.map_cons, w.char_eq_self h, ih]

theorem utf8Size_char (x : Char) : (w.char x).utf8Size = x.utf8Size := by
  rcases w.law x with hx | ⟨-, rfl, hx⟩
  · rw [hx]
  · rw [hx]
    rfl

theorem size_map (cs : List Char) : size (cs.map w.char) = size cs := by
  induction cs with
  | nil => rfl
  | cons x cs ih => rw [List.map_cons, Text.size_cons, Text.size_cons, ih, utf8Size_char]

/-- Only a newline is spelled otherwise, and only as a semicolon. -/
theorem char_eq_iff {mark : Char} (hmark : mark ≠ '\n' ∧ mark ≠ ';') (x : Char) : w.char x = mark ↔ x = mark := by
  rcases w.law x with hx | ⟨-, rfl, hx⟩
  · rw [hx]
  · rw [hx]
    exact ⟨fun h => absurd h.symm hmark.2, fun h => absurd h.symm hmark.1⟩

/-! ### Tests of characters -/

/-- The test passes neither newlines nor semicolons, if newlines end commands. -/
def Overlooked (newlineEnds : Bool) (test : Char → Bool) : Prop :=
  newlineEnds = true → test '\n' = false ∧ test ';' = false

variable {test : Char → Bool}

theorem test_char (ht : Overlooked newlineEnds test) (x : Char) : test (w.char x) = test x := by
  rcases w.law x with hx | ⟨hends, rfl, hx⟩
  · rw [hx]
  · rw [hx, (ht hends).1, (ht hends).2]

theorem char_of_test (ht : Overlooked newlineEnds test) {x : Char} (hx : test x = true) : w.char x = x := by
  rcases w.law x with h | ⟨hends, rfl, -⟩
  · exact h
  · rw [(ht hends).1] at hx
    cases hx

theorem takeWhile_map (ht : Overlooked newlineEnds test) (cs : List Char) :
    (cs.map w.char).takeWhile test = cs.takeWhile test := by
  induction cs with
  | nil => rfl
  | cons x cs ih =>
    rw [List.map_cons, List.takeWhile_cons, List.takeWhile_cons, w.test_char ht, ih]
    cases hx : test x with
    | false => rfl
    | true => rw [w.char_of_test ht hx]

theorem dropWhile_map (ht : Overlooked newlineEnds test) (cs : List Char) :
    (cs.map w.char).dropWhile test = (cs.dropWhile test).map w.char := by
  induction cs with
  | nil => rfl
  | cons x cs ih =>
    rw [List.map_cons, List.dropWhile_cons, List.dropWhile_cons, w.test_char ht, ih]
    cases test x <;> rfl

theorem overlooked_isLiteralChar : Overlooked newlineEnds isLiteralChar := fun _ => by decide

theorem overlooked_isCommandChar : Overlooked newlineEnds isCommandChar := fun _ => by decide

theorem overlooked_isVariableChar : Overlooked newlineEnds isVariableChar := fun _ => by decide +kernel

theorem overlooked_isTypeChar : Overlooked newlineEnds isTypeChar := fun _ => by decide +kernel

theorem overlooked_isDigit : Overlooked newlineEnds Char.isDigit := fun _ => by decide

/-- A stretch without blanks is spelled in one way, and goes on only where a newline behind it becomes a semicolon. -/
theorem takeWhile_nonblank_map (cs : List Char) :
    ((cs.map w.char).takeWhile (!isBlank ·) = cs.takeWhile (!isBlank ·) ∧
        (cs.map w.char).dropWhile (!isBlank ·) = (cs.dropWhile (!isBlank ·)).map w.char) ∨
      newlineEnds = true ∧ w.char '\n' = ';' ∧
        ∃ more, cs = cs.takeWhile (!isBlank ·) ++ '\n' :: more ∧
          cs.map w.char = cs.takeWhile (!isBlank ·) ++ ';' :: more.map w.char := by
  induction cs with
  | nil => exact Or.inl ⟨rfl, rfl⟩
  | cons x cs ih =>
    rw [List.map_cons, List.takeWhile_cons, List.takeWhile_cons, List.dropWhile_cons, List.dropWhile_cons]
    cases hx : !isBlank x with
    | true =>
      have hself : w.char x = x := by
        rcases w.law x with h | ⟨-, rfl, -⟩
        · exact h
        · cases hx
      rw [hself, hx]
      rcases ih with ⟨htake, hdrop⟩ | ⟨hends, hspelled, more, hcs, hmap⟩
      · exact Or.inl ⟨congrArg (x :: ·) htake, hdrop⟩
      · exact Or.inr ⟨hends, hspelled, more, congrArg (x :: ·) hcs, congrArg (x :: ·) hmap⟩
    | false =>
      rcases w.law x with h | ⟨hends, rfl, h⟩
      · rw [h, hx]
        exact Or.inl ⟨rfl, by rw [if_neg Bool.false_ne_true, if_neg Bool.false_ne_true, List.map_cons, h]⟩
      · exact Or.inr ⟨hends, h, cs, rfl, by rw [h]; rfl⟩

/-! ### Balanced blocks -/

/-- Newlines and semicolons are of no matter to the end of a block. -/
theorem splitBlock?_map {opening closing : Char} (hopening : ∀ x, w.char x = opening ↔ x = opening)
    (hclosing : ∀ x, w.char x = closing ↔ x = closing) (depth : Nat) (mode : Cursor.ScanMode) (cs : List Char) :
    Cursor.splitBlock? opening closing depth mode (cs.map w.char)
      = (Cursor.splitBlock? opening closing depth mode cs).map
          fun (block, after) => (block.map w.char, after.map w.char) := by
  have hquote : ∀ x, w.char x = '"' ↔ x = '"' := w.char_eq_iff (by decide)
  have hescape : ∀ x, w.char x = '\\' ↔ x = '\\' := w.char_eq_iff (by decide)
  induction cs generalizing depth mode with
  | nil => rfl
  | cons x cs ih =>
    have honward : ∀ depth mode,
        (Cursor.splitBlock? opening closing depth mode (cs.map w.char)).map
            (fun (block, after) => (w.char x :: block, after))
          = ((Cursor.splitBlock? opening closing depth mode cs).map
              (fun (block, after) => (x :: block, after))).map
                fun (block, after) => (block.map w.char, after.map w.char) := by
      intro depth mode
      rw [ih, Option.map_map, Option.map_map]
      rfl
    rw [List.map_cons]
    unfold Cursor.splitBlock?
    cases mode with
    | escaped => exact honward _ _
    | quoted =>
      simp only [hquote, hescape]
      exact honward _ _
    | plain =>
      simp only [hquote, hopening, hclosing]
      split
      · exact honward _ _
      · split
        · split
          · rfl
          · exact honward _ _
        · exact honward _ _

end Respelling

/-- Two readings side by side: of a text, without keeping requests, and of a respelling of it, with or without. -/
structure TwoReadings (ends : Bool) extends Respelling ends where
  source : String
  source' : String
  completing : Bool

namespace Cursor

/-- A word stands next between spaces if the stretch without blanks is just this word. -/
theorem eatWord_eq (word : String) (c : Cursor) :
    c.eatWord word = if c.skipSpace.upcoming (!isBlank ·) = word.toList ∧ word.toList ≠ [] then
      (true, c.skipSpace.skip (!isBlank ·)) else (false, c) := by
  unfold eatWord Cursor.word
  dsimp only
  generalize c.skipSpace.upcoming (!isBlank ·) = letters
  have hfound : (if letters.isEmpty then none else some (String.ofList letters)) = some word ↔
      letters = word.toList ∧ word.toList ≠ [] := by
    refine ⟨fun h => ?_, fun ⟨h, hne⟩ => ?_⟩
    · by_cases hnone : letters.isEmpty
      · rw [if_pos hnone] at h
        cases h
      · rw [if_neg hnone] at h
        rw [← Option.some.inj h, String.toList_ofList]
        exact ⟨rfl, fun hnil => hnone (List.isEmpty_iff.mpr hnil)⟩
    · rw [h, if_neg fun hnil => hne (List.isEmpty_iff.mp hnil), String.ofList_toList]
  simp only [hfound]

/-- The cursors stand at the same place of the two texts, and their range ends at `bound`.  Quoted texts are spelled in
one way only. -/
structure Alike {ends : Bool} (w : TwoReadings ends) (bound : Nat) (c c' : Cursor) : Prop where
  rest : c'.rest = c.rest.map w.char
  offset : c'.offset = c.offset
  source : c.source = w.source
  source' : c'.source = w.source'
  stop : c.stop = bound
  stop' : c'.stop = bound
  closers : c'.closers = c.closers
  braces : ∀ mark ∈ c.closers, mark = '}'
  newlineEnds : c.newlineEnds = ends
  newlineEnds' : c'.newlineEnds = ends
  known : c'.known = c.known
  plain : c.completing = false
  completing' : c'.completing = w.completing
  unquoted : w.char '\n' = ';' → '"' ∉ c.rest
  placed : ∃ before after, w.source.toList = before ++ c.rest ++ after ∧ c.offset = size before ∧
    bound = c.offset + size c.rest

/-- The marks do the same, and the cursors behind them are alike. -/
structure Joint.Alike {ends : Bool} (w : TwoReadings ends) (bound : Nat) (j j' : Joint) : Prop where
  expected : j'.expected = j.expected
  piped : j'.piped = j.piped
  after : Cursor.Alike w bound j.after j'.after

namespace Alike

variable {ends : Bool} {w : TwoReadings ends} {bound : Nat} {c c' : Cursor}
  {test : Char → Bool}

section

variable (h : Alike w bound c c')

include h

theorem atEnd : c'.atEnd = c.atEnd := by
  unfold Cursor.atEnd
  rw [h.offset, h.stop, h.stop']

/-- At the end there is nothing left. -/
theorem rest_of_atEnd (hend : c.atEnd = true) : c.rest = [] := by
  obtain ⟨before, after, -, -, hstop⟩ := h.placed
  have hle : c.stop ≤ c.offset := of_decide_eq_true hend
  have hnone : size c.rest = 0 := by
    rw [h.stop] at hle
    omega
  exact Text.eq_nil_of_size hnone

theorem length_rest : c'.rest.length = c.rest.length := by
  rw [h.rest, List.length_map]

/-! ### Characters and words -/

theorem peek : c'.peek = c.peek.map w.char := by
  unfold Cursor.peek
  rw [h.rest, List.head?_map]

theorem peek_eq_iff {mark : Char} (hmark : mark ≠ '\n' ∧ mark ≠ ';') :
    c'.peek = some mark ↔ c.peek = some mark := by
  rw [h.peek]
  cases c.peek with
  | none => exact Iff.rfl
  | some x => simp only [Option.map_some, Option.some.injEq, w.char_eq_iff hmark]

theorem any_peek (ht : Respelling.Overlooked ends test) : c'.peek.any test = c.peek.any test := by
  rw [h.peek]
  cases c.peek with
  | none => rfl
  | some x => exact w.test_char ht x

/-- Moving both cursors over the same stretch. -/
theorem advance (passed : List Char) {rest : List Char} (hrest : c.rest = passed ++ rest) :
    Alike w bound { c with rest, offset := c.offset + size passed }
      { c' with rest := rest.map w.char, offset := c'.offset + size passed } where
  rest := rfl
  offset := congrArg (· + size passed) h.offset
  source := h.source
  source' := h.source'
  stop := h.stop
  stop' := h.stop'
  closers := h.closers
  braces := h.braces
  newlineEnds := h.newlineEnds
  newlineEnds' := h.newlineEnds'
  known := h.known
  plain := h.plain
  completing' := h.completing'
  unquoted := fun hspelled hmem => h.unquoted hspelled (hrest ▸ List.mem_append_right passed hmem)
  placed := by
    obtain ⟨before, after, htext, hoffset, hstop⟩ := h.placed
    refine ⟨before ++ passed, after, ?_, ?_, ?_⟩
    · rw [htext, hrest, List.append_assoc, List.append_assoc, List.append_assoc, List.append_assoc]
    · rw [hoffset, Text.size_append]
    · rw [hstop, hrest, Text.size_append, Nat.add_assoc]

theorem next : Alike w bound c.next.2 c'.next.2 := by
  have hrest := h.rest
  unfold Cursor.next
  cases hc : c.rest with
  | nil =>
    rw [hc] at hrest
    rw [hrest]
    exact h
  | cons x rest =>
    rw [hc, List.map_cons] at hrest
    rw [hrest]
    have hadvance := h.advance [x] hc
    rw [Text.size_cons, Text.size_nil] at hadvance
    dsimp only
    rw [w.utf8Size_char]
    exact hadvance

theorem eat (mark : Char) (hmark : mark ≠ '\n' ∧ mark ≠ ';') :
    (c'.eat mark).1 = (c.eat mark).1 ∧ Alike w bound (c.eat mark).2 (c'.eat mark).2 := by
  have hpeek := h.peek_eq_iff hmark
  unfold Cursor.eat
  by_cases hc : c.peek = some mark
  · rw [if_pos hc, if_pos (hpeek.mpr hc)]
    exact ⟨rfl, h.next⟩
  · rw [if_neg hc, if_neg fun hc' => hc (hpeek.mp hc')]
    exact ⟨rfl, h⟩

theorem upcoming (ht : Respelling.Overlooked ends test) : c'.upcoming test = c.upcoming test := by
  unfold Cursor.upcoming
  rw [h.rest, w.takeWhile_map ht]

theorem skip (ht : Respelling.Overlooked ends test) :
    Alike w bound (c.skip test) (c'.skip test) := by
  have hadvance := h.advance (c.upcoming test) List.takeWhile_append_dropWhile.symm
  unfold Cursor.skip
  rw [h.upcoming ht, h.rest, w.dropWhile_map ht]
  exact hadvance

theorem isSpace : c'.isSpace = c.isSpace := by
  unfold Cursor.isSpace
  rw [h.newlineEnds, h.newlineEnds']

theorem overlooked_isSpace : Respelling.Overlooked ends c.isSpace := by
  intro hends
  unfold Cursor.isSpace
  rw [h.newlineEnds, hends]
  decide

theorem skipSpace : Alike w bound c.skipSpace c'.skipSpace := by
  unfold Cursor.skipSpace
  rw [h.isSpace]
  exact h.skip h.overlooked_isSpace

theorem word (ht : Respelling.Overlooked ends test) :
    (c'.word test).1 = (c.word test).1 ∧ Alike w bound (c.word test).2 (c'.word test).2 := by
  unfold Cursor.word
  dsimp only
  rw [h.skipSpace.upcoming ht]
  exact ⟨rfl, h.skipSpace.skip ht⟩

/-- A word between spaces is found in both texts or in neither; but a newline behind it, spelled as a semicolon, hides
it. -/
theorem eatWord (word : String) (hword : ';' ∉ word.toList) :
    ((c'.eatWord word).1 = (c.eatWord word).1 ∧ Alike w bound (c.eatWord word).2 (c'.eatWord word).2) ∨
      ends = true ∧ w.char '\n' = ';' ∧ (c.eatWord word).1 = true ∧ (c.eatWord word).2.peek = some '\n' ∧
        c'.eatWord word = (false, c') ∧ ∃ more, c'.skipSpace.rest = word.toList ++ ';' :: more := by
  have hspace := h.skipSpace
  rcases w.takeWhile_nonblank_map c.skipSpace.rest with ⟨htake, hdrop⟩ | ⟨hends, hspelled, more, hrest, hmap⟩
  · have hupcoming : c'.skipSpace.upcoming (!isBlank ·) = c.skipSpace.upcoming (!isBlank ·) := by
      unfold Cursor.upcoming
      rw [hspace.rest, htake]
    have hadvance : Alike w bound (c.skipSpace.skip (!isBlank ·)) (c'.skipSpace.skip (!isBlank ·)) := by
      have hpassed := hspace.advance (c.skipSpace.upcoming (!isBlank ·))
        List.takeWhile_append_dropWhile.symm
      unfold Cursor.skip
      rw [hupcoming, hspace.rest, hdrop]
      exact hpassed
    refine Or.inl ?_
    rw [eatWord_eq, eatWord_eq, hupcoming]
    split
    · exact ⟨rfl, hadvance⟩
    · exact ⟨rfl, h⟩
  · -- the word of the second text runs on over the semicolon
    have hlonger : ∃ z, c'.skipSpace.upcoming (!isBlank ·) = c.skipSpace.upcoming (!isBlank ·) ++ ';' :: z := by
      have hall : ∀ x ∈ c.skipSpace.rest.takeWhile (!isBlank ·), (!isBlank x) = true :=
        List.all_eq_true.mp List.all_takeWhile
      unfold Cursor.upcoming
      rw [hspace.rest, hmap, List.takeWhile_append_of_pos hall, List.takeWhile_cons_of_pos (by decide)]
      exact ⟨_, rfl⟩
    obtain ⟨z, hz⟩ := hlonger
    have hmissed : c'.eatWord word = (false, c') := by
      rw [eatWord_eq, if_neg]
      intro hfound
      refine hword ?_
      rw [← hfound.1, hz]
      exact List.mem_append_right _ List.mem_cons_self
    by_cases hfound : c.skipSpace.upcoming (!isBlank ·) = word.toList ∧ word.toList ≠ []
    · rw [eatWord_eq word c, if_pos hfound]
      refine Or.inr ⟨hends, hspelled, rfl, ?_, hmissed, more.map w.char, ?_⟩
      · have hbehind : c.skipSpace.rest.dropWhile (!isBlank ·) = '\n' :: more :=
          List.append_cancel_left (List.takeWhile_append_dropWhile.trans hrest)
        unfold Cursor.skip Cursor.peek
        rw [hbehind]
        rfl
      · rw [hspace.rest, hmap, ← hfound.1]
        rfl
    · rw [hmissed, eatWord_eq word c, if_neg hfound]
      exact Or.inl ⟨rfl, h⟩

/-! ### Ends of commands and blocks -/

theorem atCloser : c'.atCloser = c.atCloser := by
  have hbraces := h.braces
  unfold Cursor.atCloser
  rw [h.closers]
  cases hc : c.closers with
  | nil => rfl
  | cons mark outer =>
    obtain rfl : mark = '}' := hbraces mark (by rw [hc]; exact List.mem_cons_self)
    have hpeek : c'.peek = some '}' ↔ c.peek = some '}' := h.peek_eq_iff (by decide)
    simp only [List.head?_cons, Option.any_some, hpeek]

/-- All blocks that are open end at braces. -/
theorem peek_of_atCloser (hclosed : c.atCloser = true) : c.peek = some '\x7d' := by
  have hbraces := h.braces
  unfold Cursor.atCloser at hclosed
  cases hc : c.closers with
  | nil =>
    rw [hc] at hclosed
    cases hclosed
  | cons mark outer =>
    obtain rfl : mark = '\x7d' := hbraces mark (by rw [hc]; exact List.mem_cons_self)
    rw [hc] at hclosed
    exact of_decide_eq_true hclosed

theorem pushCloser : Alike w bound (c.pushCloser '}') (c'.pushCloser '}') :=
  { h with
    closers := congrArg ('}' :: ·) h.closers
    braces := fun mark hmark => by
      rcases List.mem_cons.mp hmark with rfl | hmark
      · rfl
      · exact h.braces mark hmark }

theorem eatCloser : c'.eatCloser.1 = c.eatCloser.1 ∧ Alike w bound c.eatCloser.2 c'.eatCloser.2 := by
  have hnext := h.next
  unfold Cursor.eatCloser
  rw [h.atCloser]
  by_cases hc : c.atCloser = true
  · rw [if_pos hc, if_pos hc]
    refine ⟨rfl, { hnext with
      closers := congrArg List.tail h.closers
      braces := fun mark hmark => h.braces mark (List.mem_of_mem_tail hmark) }⟩
  · rw [if_neg hc, if_neg hc]
    exact ⟨rfl, h⟩

theorem atCommandEnd : c'.atCommandEnd = c.atCommandEnd := by
  unfold Cursor.atCommandEnd
  rw [h.peek, h.closers, h.newlineEnds, h.newlineEnds']
  cases c.peek with
  | none => rfl
  | some x =>
    rcases w.law x with hx | ⟨hends, rfl, hx⟩
    · simp only [Option.map_some, hx]
    · simp [hx, hends]

theorem joint? (t : Option ValueType) :
    Option.Rel (Joint.Alike w bound) (c.joint? t) (c'.joint? t) := by
  have hnext := h.next
  have hdrop : Option.Rel (Joint.Alike w bound) (some ⟨false, none, c.next.2⟩)
      (some ⟨false, none, c'.next.2⟩) := .some ⟨rfl, rfl, hnext⟩
  unfold Cursor.joint?
  rw [h.peek, h.newlineEnds, h.newlineEnds']
  cases hc : c.peek with
  | none => simp
  | some x =>
    rcases w.law x with hx | ⟨hends, rfl, hx⟩
    · simp only [Option.map_some, hx]
      split
      · exact hdrop
      · split
        · exact .some ⟨rfl, rfl, hnext⟩
        · split
          · exact hdrop
          · exact .none
    · -- the newline ends the command as the semicolon does
      simpa [hx, hends] using hdrop

end

theorem moreJoints (n : Nat) {j j' : Joint} (hj : j.Alike w bound j') :
    (Cursor.moreJoints n j).Alike w bound (Cursor.moreJoints n j') := by
  induction n generalizing j j' with
  | zero => exact hj
  | succ n ih =>
    have hmore := hj.after.joint? j.piped
    unfold Cursor.moreJoints
    rw [hj.expected, hj.piped]
    split
    · exact hj
    · revert hmore
      generalize j.after.joint? j.piped = k
      generalize j'.after.joint? j.piped = k'
      intro hmore
      cases hmore with
      | none => exact hj
      | some hk => exact ih ⟨hk.expected, hk.piped, hk.after.skipSpace⟩

variable (h : Alike w bound c c')

include h

theorem joints (t : Option ValueType) : (c.joints t).Alike w bound (c'.joints t) := by
  have hfirst := h.joint? t
  unfold Cursor.joints
  revert hfirst
  generalize c.joint? t = j
  generalize c'.joint? t = j'
  intro hfirst
  cases hfirst with
  | none => exact ⟨rfl, rfl, h⟩
  | some hj =>
    dsimp only [Cursor.allJoints]
    rw [hj.after.skipSpace.length_rest]
    exact moreJoints _ ⟨hj.expected, hj.piped, hj.after.skipSpace⟩

/-! ### Lists, requests and variables -/

/-- A bracketed list is cut off both texts, or off neither. -/
theorem slice? :
    Option.Rel (fun s s' => Alike w s.1.stop s.1 s'.1 ∧ Alike w bound s.2 s'.2)
      (c.slice? '[' ']') (c'.slice? '[' ']') := by
  obtain ⟨hfound, hinside⟩ := h.skipSpace.eat '[' (by decide)
  unfold Cursor.slice?
  dsimp only
  rw [hfound, hinside.rest]
  generalize (c.skipSpace.eat '[').2 = inside at hinside ⊢
  generalize (c'.skipSpace.eat '[').2 = inside' at hinside ⊢
  split
  · exact .none
  · have hopening : ∀ x, w.char x = '[' ↔ x = '[' := w.char_eq_iff (by decide)
    have hclosing : ∀ x, w.char x = ']' ↔ x = ']' := w.char_eq_iff (by decide)
    rw [w.splitBlock?_map hopening hclosing]
    cases hsplit : splitBlock? '[' ']' 1 .plain inside.rest with
    | none => exact .none
    | some parts =>
      obtain ⟨block, after⟩ := parts
      have hrest := append_of_splitBlock? hsplit
      simp only [Option.map_some, w.size_map, hinside.offset]
      refine .some ⟨?_, ?_⟩
      · obtain ⟨before, behind, htext, hoffset, -⟩ := hinside.placed
        exact {
          rest := rfl
          offset := rfl
          source := hinside.source
          source' := hinside.source'
          stop := rfl
          stop' := rfl
          closers := rfl
          braces := fun mark hmark => (List.not_mem_nil hmark).elim
          newlineEnds := hinside.newlineEnds
          newlineEnds' := hinside.newlineEnds'
          known := hinside.known
          plain := hinside.plain
          completing' := hinside.completing'
          unquoted := fun hspelled hmem =>
            hinside.unquoted hspelled (hrest ▸ List.mem_append_left after hmem)
          placed := ⟨before, after ++ behind, by rw [htext, hrest]; simp only [List.append_assoc], hoffset, rfl⟩ }
      · have hbehind := hinside.advance block hrest
        rw [hinside.offset] at hbehind
        exact hbehind

theorem offer (request request' : Request) :
    Alike w bound (c.offer request) (c'.offer request') := by
  have hplain : c.offer request = c := by
    unfold Cursor.offer
    rw [h.plain]
    rfl
  rw [hplain]
  unfold Cursor.offer
  split
  · exact { h with }
  · exact h

theorem declare (name : String) (t : ValueType) :
    Alike w bound (c.declare name t) (c'.declare name t) :=
  { h with known := congrArg (·.put name t) h.known }

end Alike

end Cursor

end KeyConsole.Console
