import KeyConsole.Console.Pipeline.Reading
import KeyConsole.Proofs.Console.ReadingRules
import Mathlib.Tactic.SplitIfs

/-!
# Proofs.Console.Passage: the text that a reading moves over

A cursor only moves forward.  `c.Passes text e` says that the cursor `e` stands behind `text`, which `c` has next,
in the same range and the same blocks.  `x.Covers c Q` says how the text that the reading `x` passes from `c` on,
what it yields and where it ends belong together; a reading that fails covers nothing.
-/

namespace KeyConsole.Console

open Text (size isBlank)

namespace Cursor

variable {c e f : Cursor} {text more : List Char}

/-- The cursor `e` stands where `c` comes to behind a text. -/
structure Passes (c : Cursor) (text : List Char) (e : Cursor) : Prop where
  rest : c.rest = text ++ e.rest
  offset : e.offset = c.offset + size text
  source : e.source = c.source
  stop : e.stop = c.stop
  closers : e.closers = c.closers

theorem Passes.refl (c : Cursor) : c.Passes [] c := ⟨rfl, rfl, rfl, rfl, rfl⟩

theorem Passes.trans (h : c.Passes text e) (h' : e.Passes more f) : c.Passes (text ++ more) f where
  rest := by rw [h.rest, h'.rest, List.append_assoc]
  offset := by rw [h'.offset, h.offset, Text.size_append, Nat.add_assoc]
  source := h'.source.trans h.source
  stop := h'.stop.trans h.stop
  closers := h'.closers.trans h.closers

/-! ### Moves that change the place only -/

/-- The cursor `e` is `c` moved over a text: nothing but the place is another. -/
structure Advances (c : Cursor) (text : List Char) (e : Cursor) : Prop where
  rest : c.rest = text ++ e.rest
  moved : e = { c with rest := e.rest, offset := c.offset + size text }

namespace Advances

theorem refl (c : Cursor) : c.Advances [] c := ⟨rfl, rfl⟩

theorem trans (h : c.Advances text e) (h' : e.Advances more f) : c.Advances (text ++ more) f where
  rest := by rw [h.rest, h'.rest, List.append_assoc]
  moved := calc
    f = { e with rest := f.rest, offset := e.offset + size more } := h'.moved
    _ = { c with rest := f.rest, offset := c.offset + size text + size more } := by rw [h.moved]
    _ = { c with rest := f.rest, offset := c.offset + size (text ++ more) } := by rw [Text.size_append, Nat.add_assoc]

theorem passes (h : c.Advances text e) : c.Passes text e where
  rest := h.rest
  offset := by rw [h.moved]
  source := by rw [h.moved]
  stop := by rw [h.moved]
  closers := by rw [h.moved]

theorem known (h : c.Advances text e) : e.known = c.known := by rw [h.moved]

theorem fault (h : c.Advances text e) : e.fault = c.fault := by rw [h.moved]

theorem newlineEnds (h : c.Advances text e) : e.newlineEnds = c.newlineEnds := by rw [h.moved]

theorem completing (h : c.Advances text e) : e.completing = c.completing := by rw [h.moved]

end Advances

/-! ### Characters and words -/

/-- Moving over the next character, if there is one. -/
theorem advances_next (c : Cursor) : c.Advances c.peek.toList c.next.2 := by
  unfold next peek
  split
  · rename_i h
    rw [h]
    exact .refl c
  · rename_i x rest h
    refine ⟨?_, ?_⟩ <;> simp [h]

theorem advances_next_of_peek {x : Char} (h : c.peek = some x) : c.Advances [x] c.next.2 := by
  have hnext := advances_next c
  rw [h] at hnext
  exact hnext

theorem advances_eat (x : Char) (c : Cursor) : ∃ text, c.Advances text (c.eat x).2 := by
  unfold eat
  split
  · rename_i h
    exact ⟨[x], advances_next_of_peek h⟩
  · exact ⟨[], .refl c⟩

theorem advances_skip (test : Char → Bool) (c : Cursor) : c.Advances (c.upcoming test) (c.skip test) :=
  ⟨(List.takeWhile_append_dropWhile).symm, rfl⟩

theorem blank_of_isSpace {x : Char} (h : c.isSpace x) : isBlank x := ((Bool.and_eq_true _ _).mp h).1

theorem advances_skipSpace (c : Cursor) :
    ∃ text, c.Advances text c.skipSpace ∧ ∀ x ∈ text, isBlank x := by
  refine ⟨_, advances_skip c.isSpace c, fun x hx => ?_⟩
  have hspace : c.isSpace x := by
    have hall := List.all_takeWhile (l := c.rest) (p := c.isSpace)
    exact List.all_eq_true.mp hall x hx
  exact blank_of_isSpace hspace

/-- A word that is found is not empty. -/
theorem advances_word (test : Char → Bool) (c : Cursor) :
    ∃ text, c.Advances text (c.word test).2 ∧ ((c.word test).1.isSome → text ≠ []) := by
  obtain ⟨space, hspace, -⟩ := advances_skipSpace c
  refine ⟨_, hspace.trans (advances_skip test c.skipSpace), fun hfound => ?_⟩
  unfold word at hfound
  dsimp only at hfound
  split at hfound
  · cases hfound
  · rename_i hletters
    intro hnil
    obtain ⟨-, hnone⟩ := List.append_eq_nil_iff.mp hnil
    exact hletters (List.isEmpty_iff.mpr hnone)

theorem advances_eatWord (w : String) (c : Cursor) : ∃ text, c.Advances text (c.eatWord w).2 := by
  unfold eatWord
  obtain ⟨text, htext, -⟩ := advances_word (!isBlank ·) c
  dsimp only
  split
  · exact ⟨text, htext⟩
  · exact ⟨[], .refl c⟩

/-! ### Ends of commands and blocks -/

/-- The closing mark of the innermost block is passed, and the block is left. -/
theorem passes_eatCloser {mark : Char} {outer : List Char} (hclosers : c.closers = mark :: outer)
    (h : c.eatCloser.1 = true) :
    c.Passes [mark] { c.eatCloser.2 with closers := c.closers } ∧ c.eatCloser.2.closers = outer := by
  unfold eatCloser at h ⊢
  split at h
  · rename_i hat
    have hpeek : c.peek = some mark := by
      unfold atCloser at hat
      rw [hclosers] at hat
      exact of_decide_eq_true hat
    have hnext := (advances_next_of_peek hpeek).passes
    rw [if_pos hat]
    exact ⟨⟨hnext.rest, hnext.offset, hnext.source, hnext.stop, rfl⟩, by rw [hclosers]; rfl⟩
  · cases h

/-- A character that may stand between commands. -/
def isSeparator (x : Char) : Bool := isBlank x || x = ';' || x = '|'

theorem isSeparator_of_isBlank {x : Char} (h : isBlank x) : isSeparator x := by
  unfold isSeparator
  rw [h]
  rfl

theorem advances_joint? {t : Option ValueType} {j : Joint} (h : c.joint? t = some j) :
    ∃ text, c.Advances text j.after ∧ ∀ x ∈ text, isSeparator x := by
  unfold joint? at h
  split_ifs at h with hsemicolon hbar hnewline
  · cases h
    refine ⟨[';'], advances_next_of_peek hsemicolon, fun x hx => ?_⟩
    rw [List.mem_singleton.mp hx]
    decide
  · cases h
    obtain ⟨-, hpeek⟩ := (Bool.and_eq_true _ _).mp hbar
    refine ⟨['|'], advances_next_of_peek (of_decide_eq_true hpeek), fun x hx => ?_⟩
    rw [List.mem_singleton.mp hx]
    decide
  · cases h
    obtain ⟨-, hpeek⟩ := (Bool.and_eq_true _ _).mp hnewline
    refine ⟨['\n'], advances_next_of_peek (of_decide_eq_true hpeek), fun x hx => ?_⟩
    rw [List.mem_singleton.mp hx]
    decide

/-- Behind a mark between commands there may be spaces. -/
theorem advances_joint?_skipSpace {t : Option ValueType} {j : Joint} (h : c.joint? t = some j) :
    ∃ text, c.Advances text j.after.skipSpace ∧ ∀ x ∈ text, isSeparator x := by
  obtain ⟨marks, hmarks, hseparators⟩ := advances_joint? h
  obtain ⟨space, hspace, hblanks⟩ := advances_skipSpace j.after
  refine ⟨_, hmarks.trans hspace, fun x hx => ?_⟩
  rcases List.mem_append.mp hx with hx | hx
  · exact hseparators x hx
  · exact isSeparator_of_isBlank (hblanks x hx)

theorem advances_moreJoints (n : Nat) (j : Joint) :
    ∃ text, j.after.Advances text (moreJoints n j).after ∧ ∀ x ∈ text, isSeparator x := by
  have hstay : ∃ text, j.after.Advances text j.after ∧ ∀ x ∈ text, isSeparator x :=
    ⟨[], .refl _, fun x hx => (List.not_mem_nil hx).elim⟩
  induction n generalizing j with
  | zero => exact hstay
  | succ n ih =>
    unfold moreJoints
    split
    · exact hstay
    · split
      · exact hstay
      · rename_i k hk
        obtain ⟨first, hfirst, hseparators⟩ := advances_joint?_skipSpace hk
        obtain ⟨more, hmore, hothers⟩ := ih { k with after := k.after.skipSpace }
          ⟨[], .refl _, fun x hx => (List.not_mem_nil hx).elim⟩
        refine ⟨_, hfirst.trans hmore, fun x hx => ?_⟩
        rcases List.mem_append.mp hx with hx | hx
        · exact hseparators x hx
        · exact hothers x hx

/-- All marks between two commands are separators. -/
theorem advances_joints (t : Option ValueType) (c : Cursor) :
    ∃ text, c.Advances text (c.joints t).after ∧ ∀ x ∈ text, isSeparator x := by
  unfold joints allJoints
  split
  · exact ⟨[], .refl c, fun x hx => (List.not_mem_nil hx).elim⟩
  · rename_i j hj
    obtain ⟨first, hfirst, hseparators⟩ := advances_joint?_skipSpace hj
    obtain ⟨more, hmore, hothers⟩ :=
      advances_moreJoints j.after.skipSpace.rest.length { j with after := j.after.skipSpace }
    refine ⟨_, hfirst.trans hmore, fun x hx => ?_⟩
    rcases List.mem_append.mp hx with hx | hx
    · exact hseparators x hx
    · exact hothers x hx

/-! ### Balanced blocks -/

theorem append_of_splitBlock? {opening closing : Char} {depth : Nat} {mode : ScanMode}
    {cs block after : List Char} (h : splitBlock? opening closing depth mode cs = some (block, after)) :
    cs = block ++ after := by
  induction cs generalizing depth mode block with
  | nil => cases h
  | cons x cs ih =>
    -- whatever the mode, the scan either stops behind `x` or goes on behind it
    have honward : ∀ depth mode, (splitBlock? opening closing depth mode cs).map
        (fun found => (x :: found.1, found.2)) = some (block, after) → x :: cs = block ++ after := by
      intro depth mode h
      obtain ⟨⟨inner, behind⟩, hinner, heq⟩ := Option.map_eq_some_iff.mp h
      obtain ⟨rfl, rfl⟩ := Prod.mk.inj heq
      rw [List.cons_append, ← ih hinner]
    unfold splitBlock? at h
    cases mode with
    | escaped => exact honward _ _ h
    | quoted => exact honward _ _ h
    | plain =>
      dsimp only at h
      split at h
      · exact honward _ _ h
      · split at h
        · split at h
          · cases h
            rfl
          · exact honward _ _ h
        · exact honward _ _ h

theorem advances_slice? {opening closing : Char} {child after : Cursor}
    (h : c.slice? opening closing = some (child, after)) : ∃ text, c.Advances text after := by
  unfold slice? at h
  dsimp only at h
  split at h
  · cases h
  · obtain ⟨⟨block, behind⟩, hsplit, heq⟩ := Option.map_eq_some_iff.mp h
    obtain ⟨-, rfl⟩ := Prod.mk.inj heq
    obtain ⟨space, hspace, -⟩ := advances_skipSpace c
    obtain ⟨mark, hmark⟩ := advances_eat opening c.skipSpace
    have hblock : Advances (c.skipSpace.eat opening).2 block
        { (c.skipSpace.eat opening).2 with
          rest := behind, offset := (c.skipSpace.eat opening).2.offset + size block } :=
      ⟨append_of_splitBlock? hsplit, rfl⟩
    exact ⟨_, (hspace.trans hmark).trans hblock⟩

/-! ### Cursors that stay where they are -/

theorem passes_offer (request : Request) (c : Cursor) : c.Passes [] (c.offer request) := by
  unfold offer
  split
  · exact ⟨rfl, rfl, rfl, rfl, rfl⟩
  · exact .refl c

theorem passes_keepFault (f : Fault) (c : Cursor) : c.Passes [] (c.keepFault f) := by
  unfold keepFault
  split
  · exact .refl c
  · exact ⟨rfl, rfl, rfl, rfl, rfl⟩

theorem passes_declare (name : String) (t : ValueType) (c : Cursor) : c.Passes [] (c.declare name t) :=
  ⟨rfl, rfl, rfl, rfl, rfl⟩

theorem known_offer (request : Request) (c : Cursor) : (c.offer request).known = c.known := by
  unfold offer
  split <;> rfl

theorem known_eatCloser (c : Cursor) : c.eatCloser.2.known = c.known := by
  unfold eatCloser
  split
  · exact (advances_next c).known
  · rfl

end Cursor

namespace Reading

open Cursor (Passes)

variable {α β : Type} {x : Reading α} {k : α → Reading β} {c : Cursor} {P : List Char → α → Cursor → Prop}
  {Q : List Char → β → Cursor → Prop}

/-- If the reading `x` yields something from `c` on, then `Q` holds of the text that it passes, what it yields,
and the cursor behind it. -/
def Covers (c : Cursor) (x : Reading α) (Q : List Char → α → Cursor → Prop) : Prop :=
  ∀ a, (x.run.run c).1 = some a → ∃ text, c.Passes text (x.run.run c).2 ∧ Q text a (x.run.run c).2

/-- The reading passes some text, whenever it yields something, and makes no variable known. -/
def Passing (x : Reading α) : Prop := ∀ c, Covers c x fun _ _ e => e.known = c.known

namespace Covers

theorem pure {a : α} (h : P [] a c) : Covers c (Pure.pure a) P := by
  intro b hb
  cases hb
  exact ⟨[], .refl c, h⟩

theorem failure : Covers c (Alternative.failure : Reading α) P := by
  intro a ha
  cases ha

theorem bind (hx : Covers c x P)
    (hk : ∀ text a e, c.Passes text e → P text a e → Covers e (k a) fun more => Q (text ++ more)) :
    Covers c (x >>= k) Q := by
  intro b hb
  cases ha : (x.run.run c).1 with
  | none =>
    rw [run_bind_none ha] at hb
    cases hb
  | some a =>
    rw [run_bind_some ha] at hb ⊢
    obtain ⟨text, htext, hP⟩ := hx a ha
    obtain ⟨more, hmore, hQ⟩ := hk text a _ htext hP b hb
    exact ⟨text ++ more, htext.trans hmore, hQ⟩

theorem mono {P' : List Char → α → Cursor → Prop} (hx : Covers c x P)
    (h : ∀ text a e, c.Passes text e → P text a e → P' text a e) : Covers c x P' := by
  intro a ha
  obtain ⟨text, htext, hP⟩ := hx a ha
  exact ⟨text, htext, h text a _ htext hP⟩

/-- Something is known of whatever is read. -/
theorem yields {R : α → Prop} (hx : Covers c x P) (h : x.Yields R) :
    Covers c x fun text a e => P text a e ∧ R a := by
  intro a ha
  obtain ⟨text, htext, hP⟩ := hx a ha
  exact ⟨text, htext, hP, h c a ha⟩

/-- A first reading of which only the passed text matters. -/
theorem next (hx : Passing x)
    (hk : ∀ text a e, c.Passes text e → Covers e (k a) fun more => Q (text ++ more)) : Covers c (x >>= k) Q :=
  bind (hx c) fun text a e htext _ => hk text a e htext

/-- Asking the cursor first. -/
theorem look {f : Cursor → α} (hk : Covers c (k (f c)) Q) : Covers c (Reading.look f >>= k) Q := hk

theorem get {k : Cursor → Reading β} (hk : Covers c (k c) Q) : Covers c (MonadState.get >>= k) Q := hk

/-- Going to a place first. -/
theorem set {e : Cursor} {text : List Char} {k : PUnit → Reading β} (he : c.Passes text e)
    (hk : Covers e (k ⟨⟩) fun more => Q (text ++ more)) : Covers c (MonadStateOf.set e >>= k) Q := by
  intro b hb
  obtain ⟨more, hmore, hQ⟩ := hk b hb
  exact ⟨text ++ more, he.trans hmore, hQ⟩

/-- Moving the cursor first. -/
theorem move {f : Cursor → Cursor} {text : List Char} {k : Unit → Reading β} (hf : c.Passes text (f c))
    (hk : Covers (f c) (k ()) fun more => Q (text ++ more)) : Covers c (Reading.move f >>= k) Q := by
  intro b hb
  obtain ⟨more, hmore, hQ⟩ := hk b hb
  exact ⟨text ++ more, hf.trans hmore, hQ⟩

theorem ite {p : Prop} [Decidable p] {y : Reading α} (hx : p → Covers c x P) (hy : ¬p → Covers c y P) :
    Covers c (if p then x else y) P := by
  split
  · rename_i h
    exact hx h
  · rename_i h
    exact hy h

theorem refuse {cause : Cause} {span : Span} : Covers c (Reading.refuse cause span : Reading α) P := by
  intro a ha
  cases ha

/-- What is read inside a block up to its closing mark, where `y` refuses a block that is not closed. -/
theorem enclosed {mark : Char} {y : Reading α} (hx : Covers (c.pushCloser mark) x P)
    (hy : ∀ e, Covers e y fun _ _ _ => False) :
    Covers c
      (Reading.move (·.pushCloser mark) >>= fun _ => x >>= fun a =>
        Reading.step Cursor.eatCloser >>= fun closed => if closed then Pure.pure a else y)
      fun text a e => ∃ inside f, text = inside ++ [mark] ∧ (c.pushCloser mark).Passes inside f ∧ P inside a f ∧
        f.Passes [mark] { e with closers := mark :: e.closers } ∧ e.known = f.known := by
  intro b hb
  have hmoved : ∀ k' : PUnit → Reading α,
      (Reading.move (·.pushCloser mark) >>= k').run.run c = (k' ⟨⟩).run.run (c.pushCloser mark) := fun _ => rfl
  rw [hmoved] at hb ⊢
  cases ha : (x.run.run (c.pushCloser mark)).1 with
  | none =>
    rw [run_bind_none ha] at hb
    cases hb
  | some a =>
    obtain ⟨inside, hinside, hP⟩ := hx a ha
    rw [run_bind_some ha] at hb ⊢
    generalize (x.run.run (c.pushCloser mark)).2 = f at hb hinside hP ⊢
    have hstepped : ∀ k' : Bool → Reading α, (Reading.step Cursor.eatCloser >>= k').run.run f
        = (k' f.eatCloser.1).run.run f.eatCloser.2 := fun _ => rfl
    rw [hstepped] at hb ⊢
    have hclosers : f.closers = mark :: c.closers := hinside.closers
    cases hclosed : f.eatCloser.1 with
    | false =>
      rw [hclosed] at hb
      obtain ⟨-, -, hfalse⟩ := hy f.eatCloser.2 b hb
      exact hfalse.elim
    | true =>
      rw [hclosed] at hb
      cases hb
      obtain ⟨hmark, houter⟩ := Cursor.passes_eatCloser hclosers hclosed
      have hpassed := hinside.trans hmark
      refine ⟨inside ++ [mark], ?_, inside, f, rfl, hinside, hP, ?_, Cursor.known_eatCloser f⟩
      · exact ⟨hpassed.rest, hpassed.offset, hpassed.source, hpassed.stop, houter⟩
      · exact ⟨hmark.rest, hmark.offset, hmark.source, hmark.stop, by rw [hclosers]; exact congrArg _ houter⟩

end Covers

namespace Passing

theorem pure {a : α} : Passing (Pure.pure a : Reading α) := fun _ => .pure rfl

theorem failure : Passing (Alternative.failure : Reading α) := fun _ => .failure

theorem next (hx : Passing x) (hk : ∀ a, Passing (k a)) : Passing (x >>= k) := by
  intro c
  refine Covers.bind (hx c) fun _ a e _ he => (hk a e).mono fun _ _ f _ hf => ?_
  exact hf.trans he

theorem looked {f : Cursor → α} : Passing (Reading.look f) :=
  fun c _ _ => ⟨[], .refl c, rfl⟩

theorem move {f : Cursor → Cursor} (h : ∀ c : Cursor, ∃ text, c.Advances text (f c)) : Passing (Reading.move f) := by
  intro c a ha
  obtain ⟨text, htext⟩ := h c
  exact ⟨text, htext.passes, htext.known⟩

theorem step {f : Cursor → α × Cursor} (h : ∀ c : Cursor, ∃ text, c.Advances text (f c).2) :
    Passing (Reading.step f) := by
  intro c a ha
  obtain ⟨text, htext⟩ := h c
  exact ⟨text, htext.passes, htext.known⟩

theorem refuse {cause : Cause} {span : Span} : Passing (Reading.refuse cause span : Reading α) :=
  fun _ => .refuse

theorem ite {p : Prop} [Decidable p] {y : Reading α} (hx : Passing x) (hy : Passing y) :
    Passing (if p then x else y) :=
  fun c => .ite (fun _ => hx c) fun _ => hy c

/-- What is read by a child does not move the cursor. -/
theorem inChild {child : Cursor} : Passing (Reading.inChild child x) := by
  unfold Reading.inChild
  split
  · exact pure
  · intro _ a ha
    cases ha

theorem skipSpace : Passing Reading.skipSpace := move fun c => (Cursor.advances_skipSpace c).imp fun _ h => h.1

theorem eat (x : Char) : Passing (Reading.eat x) := step (Cursor.advances_eat x)

theorem eatWord (w : String) : Passing (Reading.step (Cursor.eatWord w)) := step (Cursor.advances_eatWord w)

theorem offset : Passing Reading.offset := looked

theorem skip (test : Char → Bool) : Passing (Reading.move (Cursor.skip test)) :=
  move fun c => ⟨_, Cursor.advances_skip test c⟩

theorem offer (request : Request) : Passing (Reading.move (·.offer request)) :=
  fun c _ _ => ⟨[], Cursor.passes_offer request c, Cursor.known_offer request c⟩

theorem word (test : Char → Bool) : Passing (Reading.step (Cursor.word test)) :=
  step fun c => (Cursor.advances_word test c).imp fun _ h => h.1

end Passing

end Reading

open Reading

/-! ### Literals -/

namespace Literal

variable {t : ValueType}

theorem append_of_unquote? {cs text after : List Char} (h : unquote? cs = some (text, after)) :
    ∃ quoted, cs = quoted ++ after := by
  induction cs using unquote?.induct generalizing text with
  | case1 => cases h
  | case2 rest =>
    cases h
    exact ⟨['"'], rfl⟩
  | case3 => cases h
  | case4 c rest ih =>
    obtain ⟨⟨inner, behind⟩, hinner, heq⟩ := Option.map_eq_some_iff.mp h
    obtain ⟨-, rfl⟩ := Prod.mk.inj heq
    obtain ⟨quoted, hquoted⟩ := ih hinner
    exact ⟨'\\' :: c :: quoted, by rw [hquoted]; rfl⟩
  | case5 c rest hquote hlast hescape ih =>
    rw [unquote?] at h
    · obtain ⟨⟨inner, behind⟩, hinner, heq⟩ := Option.map_eq_some_iff.mp h
      obtain ⟨-, rfl⟩ := Prod.mk.inj heq
      obtain ⟨quoted, hquoted⟩ := ih hinner
      exact ⟨c :: quoted, by rw [hquoted]; rfl⟩
    all_goals assumption

theorem passing_unreadable {α : Type} {start : Nat} {input : String} :
    Passing (unreadable start input t : Reading α) :=
  Passing.next .offset fun _ => .refuse

theorem passing_scalar {value? : String → Option Value} : Passing (scalar t value?) := by
  unfold scalar
  refine Passing.next .offset fun start => Passing.next (.word _) fun w => ?_
  dsimp only
  split
  · exact .pure
  · exact passing_unreadable

theorem passing_text : Passing text := by
  unfold text
  refine Passing.next .offset fun start => Passing.next (.eat _) fun quoted => Passing.ite ?_ ?_
  · intro c
    refine Covers.get ?_
    split
    · rename_i s rest hsplit
      obtain ⟨quoted, hquoted⟩ := append_of_unquote? hsplit
      have hsize : size c.rest - size rest = size quoted := by rw [hquoted, Text.size_append, Nat.add_sub_cancel]
      have hpassed : c.Passes quoted { c with rest, offset := c.offset + (size c.rest - size rest) } :=
        ⟨hquoted, by rw [hsize], rfl, rfl, rfl⟩
      exact Covers.set hpassed (Covers.pure rfl)
    · have hpassed : c.Passes c.rest { c with rest := [], offset := c.offset + size c.rest } :=
        ⟨(List.append_nil _).symm, rfl, rfl, rfl, rfl⟩
      exact Covers.set hpassed (passing_unreadable _)
  · refine Passing.next (.word _) fun w => ?_
    split
    · exact .pure
    · exact passing_unreadable

theorem passing_list {item : Reading Value} : Passing (list t item) := by
  unfold list
  refine Passing.next .offset fun start c => Covers.get ?_
  split
  · exact Passing.next .looked (fun _ => passing_unreadable) c
  · rename_i child after hslice
    obtain ⟨passed, hpassed⟩ := Cursor.advances_slice? hslice
    refine Covers.set hpassed.passes ((Passing.next .inChild (fun _ => .pure) after).mono fun _ _ e _ he => ?_)
    exact he.trans hpassed.known

theorem passing_bareWord : Passing bareWord := by
  unfold bareWord
  refine Passing.next .offset fun start => Passing.next (.word _) fun w => ?_
  split
  · exact .pure
  · exact passing_unreadable

theorem passing_form (literals : ValueType → Reading Value) (t : ValueType) : Passing (form literals t) := by
  unfold form
  refine Passing.next .skipSpace fun _ => ?_
  cases t with
  | void => exact Passing.next .offset fun _ => passing_unreadable
  | int => exact passing_scalar
  | float => exact passing_scalar
  | bool => exact passing_scalar
  | string => exact passing_text
  | list element => exact passing_list
  | any =>
    refine Passing.next .looked fun c => ?_
    split
    · exact passing_list
    · exact passing_text
    · exact passing_bareWord

theorem passing_nested (depth : Nat) (t : ValueType) : Passing (nested depth t) := by
  cases depth with
  | zero => exact .failure
  | succ depth => exact passing_form (nested depth) t

end Literal

namespace Reading

theorem passing_literal (t : ValueType) : Passing (literal t) :=
  Passing.next .looked fun _ => Literal.passing_nested _ t

/-! ### Types and names -/

theorem passing_spanFrom (start : Nat) : Passing (spanFrom start) := Passing.next .offset fun _ => .pure

theorem passing_refuseEnd {α : Type} : Passing (refuseEnd : Reading α) := Passing.next .offset fun _ => .refuse

theorem passing_typeArgument (command : String) : Passing (typeArgument command) := by
  unfold typeArgument
  refine Passing.next .skipSpace fun _ => Passing.next .offset fun start => Passing.next (.word _) fun w => ?_
  cases w with
  | none =>
    refine Passing.next .looked fun ended => ?_
    extract_lets refused
    exact Passing.ite (Passing.next (.offer _) fun _ => .refuse) .refuse
  | some w =>
    refine Passing.next .looked fun ended => ?_
    extract_lets behind
    have hbehind : ∀ u, Passing (behind u) := by
      intro u
      dsimp only [behind]
      split
      · exact .pure
      · exact Passing.next (passing_spanFrom _) fun _ => .refuse
    exact Passing.ite (Passing.next (.offer _) hbehind) (hbehind ())

theorem passing_typeArguments (command : String) (n : Nat) : Passing (typeArguments command n) := by
  induction n with
  | zero => exact .pure
  | succ n ih => exact Passing.next (passing_typeArgument command) fun _ => Passing.next ih fun _ => .pure

theorem passing_variableName (wanted : Option ValueType) : Passing (variableName wanted) := by
  unfold variableName
  refine Passing.next .skipSpace fun _ => Passing.next .offset fun start => Passing.next (.eat _) fun dollar =>
    Passing.ite ?_ (Passing.next .looked fun _ => .refuse)
  refine Passing.next .looked fun letters => Passing.next (.skip _) fun _ => Passing.next .looked fun ended => ?_
  extract_lets behind
  have hbehind : ∀ u, Passing (behind u) := fun u =>
    Passing.ite (Passing.next .looked fun _ => Passing.ite passing_refuseEnd (Passing.next .offset fun _ => .refuse))
      .pure
  exact Passing.ite (Passing.next .looked fun _ => Passing.next (.offer _) hbehind) (hbehind ())

theorem passing_subcommand (c : Command) (piped : Option ValueType) : Passing (subcommand c piped) := by
  unfold subcommand
  refine Passing.next (.eat _) fun colon => Passing.ite ?_ ?_
  · refine Passing.next .offset fun start => Passing.next .looked fun letters =>
      Passing.next (.skip _) fun _ => Passing.next .looked fun ended => ?_
    extract_lets behind
    have hbehind : ∀ u, Passing (behind u) := fun u =>
      Passing.ite .refuse <| Passing.ite (Passing.next (passing_spanFrom _) fun _ => .refuse) <|
        Passing.next .looked fun completing => Passing.ite passing_refuseEnd .pure
    exact Passing.ite (Passing.next (.offer _) hbehind) (hbehind ())
  · refine Passing.next .offset fun here => Passing.next .looked fun ended => Passing.ite ?_ .refuse
    exact Passing.next (.offer _) fun _ => passing_refuseEnd

/-- Where a command begins there is a character of its name. -/
theorem covers_commandWord (c : Cursor) :
    Covers c commandWord fun text w e => (w.isSome → text ≠ []) ∧ e.known = c.known := by
  unfold commandWord
  refine Covers.look (Covers.ite (fun _ => Covers.pure ⟨(fun h => by cases h), rfl⟩) fun _ => ?_)
  intro w hw
  obtain ⟨text, htext, hne⟩ := Cursor.advances_word isCommandChar c
  have hfound : (c.word isCommandChar).1 = w := Option.some.inj hw
  exact ⟨text, htext.passes, fun h => hne (hfound ▸ h), rfl⟩

/-! ### Heads of commands -/

section

variable {d : Directory} {piped : Option ValueType} {nameStart : Nat} {inverted : Bool} {name : String}

theorem passing_headTypes (registered : Command) (sub : Option String) :
    Passing (headTypes d piped nameStart inverted name registered sub) := by
  refine Passing.next (passing_typeArguments _ _) fun types => ?_
  unfold headSignature
  split
  · exact Passing.next (passing_spanFrom _) fun _ => .refuse
  · exact .pure

theorem passing_headBehindName : Passing (headBehindName d piped nameStart inverted name) := by
  unfold headBehindName
  split
  · refine Passing.next .looked fun ended => ?_
    extract_lets refused
    have hrefused : ∀ u, Passing (refused u) := fun _ => Passing.next (passing_spanFrom _) fun _ => .refuse
    exact Passing.ite (Passing.next (.offer _) hrefused) (hrefused ())
  · rename_i registered _
    have hbehind : ∀ sub, Passing (headBehindSubcommand d piped nameStart inverted name registered sub) := fun sub =>
      Passing.next .looked fun ended =>
        Passing.ite (Passing.next (.offer _) fun _ => passing_refuseEnd) (passing_headTypes registered sub)
    refine Passing.ite ?_ (Passing.next .pure hbehind)
    exact Passing.next (Passing.next (passing_subcommand _ _) fun _ => .pure) hbehind

/-- The head of a command is not empty. -/
theorem covers_commandHead (d : Directory) (piped : Option ValueType) (c : Cursor) :
    Covers c (commandHead d piped) fun text _ e => text ≠ [] ∧ e.known = c.known := by
  unfold commandHead headBehindNot
  refine Covers.bind (Passing.skipSpace c) fun space _ c₁ _ hk₁ => Covers.bind (Passing.eatWord _ c₁)
    fun marks inverted c₂ _ hk₂ => Covers.bind (Passing.skipSpace c₂) fun gap _ c₃ _ hk₃ => Covers.look ?_
  refine Covers.bind (covers_commandWord c₃) fun letters word c₄ _ ⟨hletters, hk₄⟩ => ?_
  split
  · unfold refuseCommand
    refine Covers.get (Covers.ite (fun _ => ?_) fun _ => Covers.ite (fun _ => .refuse) fun _ => .refuse)
    exact Covers.next (.offer _) fun _ _ _ _ => .refuse
  · refine (passing_headBehindName c₄).mono fun more h e _ he => ⟨?_, he.trans (hk₄.trans (hk₃.trans (hk₂.trans hk₁)))⟩
    simp [hletters rfl]

end

end Reading

end KeyConsole.Console
