import KeyConsole.Proofs.Console.Ranges

/-!
# Proofs.Console.CursorHistory: cursors after any calls

Whatever is asked of a cursor and of the children that are cut off from it, in whatever order: each stands between two
characters of the source, inside its range, and the range of a child lies inside that of its parent.  What a cursor
answers depends on nothing behind the end of its range.
-/

namespace KeyConsole.Console.Cursor

open Text (size)

/-! ### Operations -/

/-- What can be asked of a cursor by itself. -/
inductive Operation where
  | peek
  | next
  | eat (x : Char)
  | eatWord (w : String)
  | peekWord (test : Char → Bool)
  | word (test : Char → Bool)
  | skip (test : Char → Bool)
  | skipSpace
  | pushCloser (mark : Char)
  | atCloser
  | eatCloser
  | atCommandEnd
  | joints (piped : Option ValueType)

/-- What is answered. -/
inductive Answer where
  | nothing
  | char (x : Option Char)
  | word (w : Option String)
  | truth (b : Bool)
  | count (n : Nat)
  | joint (expected : Bool) (piped : Option ValueType)

/-- The answer to an operation, and the cursor after it. -/
def answer (c : Cursor) : Operation → Answer × Cursor
  | .peek => (.char c.peek, c)
  | .next => (.char c.next.1, c.next.2)
  | .eat x => (.truth (c.eat x).1, (c.eat x).2)
  | .eatWord w => (.truth (c.eatWord w).1, (c.eatWord w).2)
  | .peekWord test => (.word (c.peekWord test), c)
  | .word test => (.word (c.word test).1, (c.word test).2)
  | .skip test => (.count (c.upcoming test).length, c.skip test)
  | .skipSpace => (.count (c.upcoming c.isSpace).length, c.skipSpace)
  | .pushCloser mark => (.nothing, c.pushCloser mark)
  | .atCloser => (.truth c.atCloser, c)
  | .eatCloser => (.truth c.eatCloser.1, c.eatCloser.2)
  | .atCommandEnd => (.truth c.atCommandEnd, c)
  | .joints piped => (.joint (c.joints piped).expected (c.joints piped).piped, (c.joints piped).after)

/-- A cursor, where its range begins, the cursor that it was cut off from, and the places saved on it. -/
structure Opened where
  cursor : Cursor
  start : Nat
  parent : Option Nat := none
  saved : List Mark := []

/-- What can be done with a cursor that is open. -/
inductive Action where
  | ask (operation : Operation)
  /-- Cut off a balanced block. -/
  | slice (opening closing : Char)
  /-- Save the place. -/
  | save
  /-- Go back to one of the places saved, counted from the first. -/
  | restore (k : Nat)

namespace Opened

/-- The answer to an action, the cursor after it, and the child that was cut off. -/
def perform (o : Opened) : Action → Answer × Opened × Option Cursor
  | .ask operation => ((o.cursor.answer operation).1, { o with cursor := (o.cursor.answer operation).2 }, none)
  | .slice opening closing =>
    match o.cursor.slice? opening closing with
    | none => (.truth false, o, none)
    | some (child, after) => (.truth true, { o with cursor := after }, some child)
  | .save => (.nothing, { o with saved := o.saved ++ [o.cursor.mark] }, none)
  | .restore k =>
    match o.saved[k]? with
    | none => (.nothing, o, none)
    | some m => (.nothing, { o with cursor := o.cursor.goTo m }, none)

/-- The cursor after an action. -/
def after (o : Opened) (a : Action) : Opened := (o.perform a).2.1

end Opened

/-- The open cursors after an action on the one at a position; a child that is cut off comes last. -/
def act (cursors : List Opened) (step : Nat × Action) : List Opened :=
  match cursors[step.1]? with
  | none => cursors
  | some o =>
    cursors.set step.1 (o.after step.2) ++
      (o.perform step.2).2.2.toList.map fun child => { cursor := child, start := child.offset, parent := some step.1 }

/-- The open cursors after some actions on the first one and on what is cut off. -/
def history (root : Cursor) (steps : List (Nat × Action)) : List Opened :=
  steps.foldl act [{ cursor := root, start := root.offset }]

/-! ### Moving on -/

variable {c e : Cursor} {o p : Opened} {source : String} {front range behind text : List Char}

theorem passes_eatCloser_anyway (c : Cursor) :
    ∃ text, c.Passes text { c.eatCloser.2 with closers := c.closers } := by
  unfold eatCloser
  split
  · have hnext := (advances_next c).passes
    exact ⟨_, hnext.rest, hnext.offset, hnext.source, hnext.stop, rfl⟩
  · exact ⟨[], .refl c⟩

/-- Whatever is asked, the cursor only moves on, but for the blocks that it is in. -/
theorem passes_answer (c : Cursor) (operation : Operation) :
    ∃ text, c.Passes text { (c.answer operation).2 with closers := c.closers } := by
  have hkept : ∀ {text e}, c.Advances text e → ∃ text, c.Passes text { e with closers := c.closers } :=
    fun h => ⟨_, h.rest, h.passes.offset, h.passes.source, h.passes.stop, rfl⟩
  cases operation with
  | next => exact hkept (advances_next c)
  | eat x =>
    obtain ⟨text, h⟩ := advances_eat x c
    exact hkept h
  | eatWord w =>
    obtain ⟨text, h⟩ := advances_eatWord w c
    exact hkept h
  | word test =>
    obtain ⟨text, h, -⟩ := advances_word test c
    exact hkept h
  | skip test => exact hkept (advances_skip test c)
  | skipSpace =>
    obtain ⟨text, h, -⟩ := advances_skipSpace c
    exact hkept h
  | eatCloser => exact passes_eatCloser_anyway c
  | joints piped =>
    obtain ⟨text, h, -⟩ := advances_joints piped c
    exact hkept h
  | _ => exact ⟨[], .refl c⟩

/-! ### Ranges -/

/-- The cursor is open on the part `range` of the source, which begins behind `front`; it stands in there, and so do the
places saved on it. -/
structure Opened.On (source : String) (front range behind : List Char) (o : Opened) : Prop where
  own : o.cursor.source = source
  parts : source.toList = front ++ (range ++ behind)
  start : o.start = size front
  stop : o.cursor.stop = size front + size range
  place : ∃ passed, range = passed ++ o.cursor.rest ∧ o.cursor.offset = size front + size passed
  saved : ∀ m ∈ o.saved, ∃ passed left, range = passed ++ left ∧ m.offset = size front + size passed

/-- From a place in a part of a text to the end of this part there is what is left of the part. -/
theorem slice?_left (front passed left behind : List Char) :
    Text.slice? (size front + size passed) (size front + size (passed ++ left))
      (front ++ ((passed ++ left) ++ behind)) = some left := by
  have hslice := Text.slice?_size (front ++ passed) left behind
  rw [Text.size_append] at hslice
  rw [Text.size_append, ← Nat.add_assoc]
  simpa only [List.append_assoc] using hslice

namespace Opened.On

theorem move (h : o.On source front range behind)
    (hpasses : o.cursor.Passes text { e with closers := o.cursor.closers }) :
    Opened.On source front range behind { o with cursor := e } := by
  obtain ⟨passed, hrange, hoffset⟩ := h.place
  refine ⟨hpasses.source.trans h.own, h.parts, h.start, hpasses.stop.trans h.stop, ⟨passed ++ text, ?_, ?_⟩, h.saved⟩
  · rw [hrange, hpasses.rest, List.append_assoc]
  · rw [hpasses.offset, hoffset, Text.size_append, Nat.add_assoc]

/-- Going back to a place that was saved, the cursor finds what was left there. -/
theorem goTo (h : o.On source front range behind) {m : Mark} (hm : m ∈ o.saved) :
    Opened.On source front range behind { o with cursor := o.cursor.goTo m } := by
  obtain ⟨passed, left, hrange, hoffset⟩ := h.saved m hm
  refine ⟨h.own, h.parts, h.start, h.stop, ⟨passed, ?_, hoffset⟩, h.saved⟩
  have hleft : (o.cursor.goTo m).rest = left := by
    have hslice := slice?_left front passed left behind
    unfold Cursor.goTo
    rw [← hrange] at hslice
    rw [h.own, h.parts, h.stop, hoffset, hslice]
    rfl
  rw [hleft, hrange]

/-- A block that is cut off is a part of the range. -/
theorem slice (h : o.On source front range behind) {opening closing : Char} {child after : Cursor}
    (hslice : o.cursor.slice? opening closing = some (child, after)) (parent : Option Nat) :
    ∃ front' range' behind', Opened.On source front' range' behind' { cursor := child, start := child.offset, parent } ∧
      o.start ≤ child.offset ∧ child.stop ≤ o.cursor.stop := by
  obtain ⟨passed, hrange, hoffset⟩ := h.place
  obtain ⟨space, block, -, hrest, -, rfl, -⟩ := exists_of_slice? hslice
  have hstart : o.cursor.offset + size space + opening.utf8Size = size (front ++ passed ++ space ++ [opening]) := by
    simp [hoffset, Nat.add_assoc]
  refine ⟨front ++ passed ++ space ++ [opening], block, after.rest ++ behind,
    ⟨h.own, ?_, hstart, by rw [← hstart], ⟨[], rfl, by simp [hstart]⟩, fun m hm => by cases hm⟩, ?_, ?_⟩
  · rw [h.parts, hrange, hrest]
    simp
  · rw [h.start]
    show size front ≤ o.cursor.offset + size space + opening.utf8Size
    omega
  · rw [h.stop, hrange, hrest]
    show o.cursor.offset + size space + opening.utf8Size + size block ≤ _
    simp only [Text.size_append, Text.size_cons]
    omega

theorem save (h : o.On source front range behind) : (o.after .save).On source front range behind := by
  refine ⟨h.own, h.parts, h.start, h.stop, h.place, fun m hm => ?_⟩
  rcases List.mem_append.mp hm with hm | hm
  · exact h.saved m hm
  · obtain ⟨passed, hrange, hoffset⟩ := h.place
    rw [List.mem_singleton.mp hm]
    exact ⟨passed, o.cursor.rest, hrange, hoffset⟩

/-- After an action the cursor is still open on its range, and a child is open on a part of it. -/
theorem perform (h : o.On source front range behind) (a : Action) :
    (o.after a).On source front range behind ∧
      ∀ child ∈ (o.perform a).2.2, ∀ parent, ∃ front' range' behind',
        Opened.On source front' range' behind' { cursor := child, start := child.offset, parent } ∧
          o.start ≤ child.offset ∧ child.stop ≤ o.cursor.stop := by
  unfold Opened.after
  cases a with
  | ask operation =>
    obtain ⟨text, hpasses⟩ := passes_answer o.cursor operation
    exact ⟨h.move hpasses, fun child hchild => by cases hchild⟩
  | slice opening closing =>
    unfold Opened.perform
    dsimp only
    cases hslice : o.cursor.slice? opening closing with
    | none => exact ⟨h, fun child hchild => by cases hchild⟩
    | some found =>
      obtain ⟨text, hadvances⟩ := advances_slice? hslice
      have hpasses := hadvances.passes
      have hkept : o.cursor.Passes text { found.2 with closers := o.cursor.closers } :=
        ⟨hpasses.rest, hpasses.offset, hpasses.source, hpasses.stop, rfl⟩
      refine ⟨h.move hkept, fun child hchild parent => ?_⟩
      cases hchild
      exact h.slice hslice parent
  | save => exact ⟨h.save, fun child hchild => by cases hchild⟩
  | restore k =>
    unfold Opened.perform
    dsimp only
    cases hsaved : o.saved[k]? with
    | none => exact ⟨h, fun child hchild => by cases hchild⟩
    | some m => exact ⟨h.goTo (List.mem_of_getElem? hsaved), fun child hchild => by cases hchild⟩

end Opened.On

theorem parent_after (o : Opened) (a : Action) : (o.after a).parent = o.parent := by
  unfold Opened.after Opened.perform
  cases a <;> dsimp only <;> split <;> rfl

/-! ### Histories -/

/-- The range of a cursor lies inside that of another. -/
def Opened.Inside (o p : Opened) : Prop := p.start ≤ o.start ∧ o.cursor.stop ≤ p.cursor.stop

/-- Every cursor is open on a part of the source, inside the range of its parent. -/
structure Sound (source : String) (cursors : List Opened) : Prop where
  on : ∀ o ∈ cursors, ∃ front range behind, o.On source front range behind
  nested : ∀ o ∈ cursors, ∀ j ∈ o.parent, ∃ p, cursors[j]? = some p ∧ o.Inside p

variable {cursors : List Opened} {i j : Nat} {a : Action}

theorem Opened.On.same_range {o' : Opened} (h : o.On source front range behind) (h' : o'.On source front range behind) :
    o'.start = o.start ∧ o'.cursor.stop = o.cursor.stop :=
  ⟨h'.start.trans h.start.symm, h'.stop.trans h.stop.symm⟩

/-- An action leaves every cursor where it is found, open on its range. -/
theorem Sound.getElem?_act (h : Sound source cursors) (hp : cursors[j]? = some p) :
    ∃ p', (act cursors (i, a))[j]? = some p' ∧ p'.start = p.start ∧ p'.cursor.stop = p.cursor.stop := by
  unfold act
  dsimp only
  cases ho : cursors[i]? with
  | none => exact ⟨p, hp, rfl, rfl⟩
  | some o =>
    have hj : j < cursors.length := (List.getElem?_eq_some_iff.mp hp).1
    dsimp only
    rw [List.getElem?_append_left (by rwa [List.length_set])]
    by_cases hij : i = j
    · subst hij
      have hsame : o = p := Option.some.inj (ho.symm.trans hp)
      subst hsame
      obtain ⟨front, range, behind, hon⟩ := h.on o (List.mem_of_getElem? ho)
      obtain ⟨hstart, hstop⟩ := hon.same_range (hon.perform a).1
      exact ⟨o.after a, List.getElem?_set_self hj, hstart, hstop⟩
    · exact ⟨p, by rw [List.getElem?_set_ne hij, hp], rfl, rfl⟩

/-- After an action a cursor is the one that acted, one from before, or the child. -/
theorem mem_act (ho : cursors[i]? = some o) {q : Opened} (hq : q ∈ act cursors (i, a)) :
    q = o.after a ∨ q ∈ cursors ∨
      ∃ child ∈ (o.perform a).2.2, q = { cursor := child, start := child.offset, parent := some i } := by
  unfold act at hq
  rw [ho] at hq
  rcases List.mem_append.mp hq with hq | hq
  · exact (List.mem_or_eq_of_mem_set hq).symm.imp id Or.inl
  · obtain ⟨child, hmade, rfl⟩ := List.mem_map.mp hq
    exact Or.inr (Or.inr ⟨child, Option.mem_toList.mp hmade, rfl⟩)

theorem Sound.act (h : Sound source cursors) (step : Nat × Action) : Sound source (act cursors step) := by
  obtain ⟨i, a⟩ := step
  have hinside : ∀ {o p : Opened} {j : Nat}, cursors[j]? = some p → o.Inside p →
      ∃ p', (Cursor.act cursors (i, a))[j]? = some p' ∧ o.Inside p' := by
    intro o p j hp ho
    obtain ⟨p', hp', hstart, hstop⟩ := h.getElem?_act (i := i) (a := a) hp
    exact ⟨p', hp', hstart ▸ ho.1, hstop ▸ ho.2⟩
  cases hfound : cursors[i]? with
  | none =>
    have hact : Cursor.act cursors (i, a) = cursors := by
      unfold Cursor.act
      rw [hfound]
    rw [hact]
    exact h
  | some o =>
    have hmem : o ∈ cursors := List.mem_of_getElem? hfound
    obtain ⟨front, range, behind, hon⟩ := h.on o hmem
    obtain ⟨hafter, hchild⟩ := hon.perform a
    have hrange := hon.same_range hafter
    refine ⟨fun q hq => ?_, fun q hq j hj => ?_⟩
    · rcases mem_act hfound hq with rfl | hq | ⟨child, hmade, rfl⟩
      · exact ⟨front, range, behind, hafter⟩
      · exact h.on q hq
      · obtain ⟨front', range', behind', hmadeOn, -⟩ := hchild child hmade (some i)
        exact ⟨front', range', behind', hmadeOn⟩
    · rcases mem_act hfound hq with rfl | hq | ⟨child, hmade, rfl⟩
      · rw [parent_after] at hj
        obtain ⟨p, hp, hop⟩ := h.nested o hmem j hj
        refine hinside hp ?_
        unfold Opened.Inside at hop ⊢
        rwa [hrange.1, hrange.2]
      · obtain ⟨p, hp, hqp⟩ := h.nested q hq j hj
        exact hinside hp hqp
      · cases hj
        obtain ⟨-, -, -, -, hinner⟩ := hchild child hmade none
        exact hinside hfound hinner

/-- The invariant of every history. -/
theorem sound_history {root : Cursor} (hroot : root.InSource) (steps : List (Nat × Action)) :
    Sound root.source (history root steps) := by
  have hstart : Sound root.source [{ cursor := root, start := root.offset }] := by
    obtain ⟨before, behind, hsource, hoffset, hstop⟩ := hroot
    refine ⟨fun o ho => ?_, fun o ho j hj => ?_⟩
    · rw [List.mem_singleton.mp ho]
      exact ⟨before, root.rest, behind, rfl, hsource, hoffset, hstop, ⟨[], rfl, hoffset⟩, fun m hm => by cases hm⟩
    · rw [List.mem_singleton.mp ho] at hj
      cases hj
  unfold history
  generalize [({ cursor := root, start := root.offset } : Opened)] = cursors at hstart
  induction steps generalizing cursors with
  | nil => exact hstart
  | cons step steps ih => exact ih _ (hstart.act step)

/-! ### The same place in another source -/

/-- The cursor with another source text around what it sees. -/
def withSource (source : String) (c : Cursor) : Cursor := { c with source }

/-- The open cursor with another source text around what it sees. -/
def Opened.withSource (source : String) (o : Opened) : Opened := { o with cursor := o.cursor.withSource source }

/-- A mark between commands with another source text behind it. -/
def Joint.withSource (source : String) (j : Joint) : Joint := { j with after := j.after.withSource source }

variable {source' : String}

theorem next_withSource (c : Cursor) : (c.withSource source').next = (c.next.1, c.next.2.withSource source') := by
  have hrest : (c.withSource source').rest = c.rest := rfl
  unfold next
  rw [hrest]
  cases c.rest <;> rfl

theorem eat_withSource (x : Char) (c : Cursor) :
    (c.withSource source').eat x = ((c.eat x).1, (c.eat x).2.withSource source') := by
  have hpeek : (c.withSource source').peek = c.peek := rfl
  unfold eat
  rw [hpeek, next_withSource]
  split <;> rfl

theorem eatWord_withSource (w : String) (c : Cursor) :
    (c.withSource source').eatWord w = ((c.eatWord w).1, (c.eatWord w).2.withSource source') := by
  have hword : (c.withSource source').word (!Text.isBlank ·) =
      ((c.word (!Text.isBlank ·)).1, (c.word (!Text.isBlank ·)).2.withSource source') := rfl
  unfold eatWord
  rw [hword]
  dsimp only
  split <;> rfl

theorem eatCloser_withSource (c : Cursor) :
    (c.withSource source').eatCloser = (c.eatCloser.1, c.eatCloser.2.withSource source') := by
  have hat : (c.withSource source').atCloser = c.atCloser := rfl
  unfold eatCloser
  rw [hat, next_withSource]
  split <;> rfl

theorem joint?_withSource (t : Option ValueType) (c : Cursor) :
    (c.withSource source').joint? t = (c.joint? t).map (Joint.withSource source') := by
  have hpeek : (c.withSource source').peek = c.peek := rfl
  have hends : (c.withSource source').newlineEnds = c.newlineEnds := rfl
  unfold joint?
  rw [hpeek, hends, next_withSource]
  split
  · rfl
  · split
    · rfl
    · split <;> rfl

theorem moreJoints_withSource (n : Nat) (j : Joint) :
    moreJoints n (j.withSource source') = (moreJoints n j).withSource source' := by
  induction n generalizing j with
  | zero => rfl
  | succ n ih =>
    have hjoint : (j.withSource source').after.joint? (j.withSource source').piped =
        (j.after.joint? j.piped).map (Joint.withSource source') := joint?_withSource j.piped j.after
    have hexpected : (j.withSource source').expected = j.expected := rfl
    unfold moreJoints
    rw [hexpected, hjoint]
    split
    · rfl
    · cases j.after.joint? j.piped with
      | none => rfl
      | some k => exact ih { k with after := k.after.skipSpace }

theorem joints_withSource (t : Option ValueType) (c : Cursor) :
    (c.withSource source').joints t = (c.joints t).withSource source' := by
  unfold joints allJoints
  rw [joint?_withSource]
  cases c.joint? t with
  | none => rfl
  | some j => exact moreJoints_withSource _ { j with after := j.after.skipSpace }

theorem slice?_withSource (opening closing : Char) (c : Cursor) :
    (c.withSource source').slice? opening closing =
      (c.slice? opening closing).map fun found => (found.1.withSource source', found.2.withSource source') := by
  have heat : (c.withSource source').skipSpace.eat opening =
      ((c.skipSpace.eat opening).1, (c.skipSpace.eat opening).2.withSource source') :=
    eat_withSource opening c.skipSpace
  have hrest : ((c.skipSpace.eat opening).2.withSource source').rest = (c.skipSpace.eat opening).2.rest := rfl
  unfold slice?
  rw [heat]
  dsimp only
  rw [hrest]
  split
  · rfl
  · rw [Option.map_map]
    rfl

/-- Nothing that is asked of a cursor by itself depends on its source. -/
theorem answer_withSource (c : Cursor) (operation : Operation) :
    (c.withSource source').answer operation = ((c.answer operation).1, (c.answer operation).2.withSource source') := by
  cases operation with
  | next => exact congrArg (fun found => (Answer.char found.1, found.2)) (next_withSource c)
  | eat x => exact congrArg (fun found => (Answer.truth found.1, found.2)) (eat_withSource x c)
  | eatWord w => exact congrArg (fun found => (Answer.truth found.1, found.2)) (eatWord_withSource w c)
  | eatCloser => exact congrArg (fun found => (Answer.truth found.1, found.2)) (eatCloser_withSource c)
  | joints t => exact congrArg (fun j => (Answer.joint j.expected j.piped, j.after)) (joints_withSource t c)
  | _ => rfl

/-- The two texts begin with the same characters, up to a position in bytes. -/
def AgreeUpTo (n : Nat) (source source' : String) : Prop :=
  ∃ common behind behind', source.toList = common ++ behind ∧ source'.toList = common ++ behind' ∧ size common = n

/-- A text that agrees with the source up to the end of a range has the range in the same place. -/
theorem Opened.On.parts_of_agree (h : o.On source front range behind)
    (hagree : AgreeUpTo o.cursor.stop source source') : ∃ behind', source'.toList = front ++ (range ++ behind') := by
  obtain ⟨common, rest, rest', hsource, hsource', hsize⟩ := hagree
  have hcut := Text.splitAt?_size common rest
  have hcut' := Text.splitAt?_size (front ++ range) behind
  rw [Text.size_append, ← h.stop, List.append_assoc, ← h.parts, hsource, ← hsize, hcut] at hcut'
  obtain ⟨rfl, -⟩ := Prod.mk.inj (Option.some.inj hcut')
  exact ⟨rest', by rw [hsource', List.append_assoc]⟩

/-- What is done with a cursor depends on nothing behind the end of its range. -/
theorem Opened.On.perform_withSource (h : o.On source front range behind)
    (hagree : AgreeUpTo o.cursor.stop source source') (a : Action) :
    (o.withSource source').perform a =
      ((o.perform a).1, (o.after a).withSource source', (o.perform a).2.2.map (Cursor.withSource source')) := by
  unfold Opened.after
  cases a with
  | ask operation =>
    exact congrArg (fun found => (found.1, { o with cursor := found.2 }, none)) (answer_withSource o.cursor operation)
  | slice opening closing =>
    have hcursor : (o.withSource source').cursor = o.cursor.withSource source' := rfl
    unfold Opened.perform
    dsimp only
    rw [hcursor, slice?_withSource]
    cases o.cursor.slice? opening closing <;> rfl
  | save => rfl
  | restore k =>
    have hsaved : (o.withSource source').saved = o.saved := rfl
    unfold Opened.perform
    dsimp only
    rw [hsaved]
    cases hk : o.saved[k]? with
    | none => rfl
    | some m =>
      obtain ⟨passed, left, hrange, hoffset⟩ := h.saved m (List.mem_of_getElem? hk)
      obtain ⟨behind', hsource'⟩ := h.parts_of_agree hagree
      have hleft := fun behind => slice?_left front passed left behind
      rw [← hrange] at hleft
      have hthere : Text.slice? m.offset o.cursor.stop source'.toList = some left := by
        rw [hsource', hoffset, h.stop, hleft]
      have hhere : Text.slice? m.offset o.cursor.stop o.cursor.source.toList = some left := by
        rw [h.own, h.parts, hoffset, h.stop, hleft]
      have hgoTo : (o.cursor.withSource source').goTo m = (o.cursor.goTo m).withSource source' := by
        unfold Cursor.goTo Cursor.withSource
        dsimp only
        rw [hthere, hhere]
      exact congrArg (fun cursor => (Answer.nothing, { o with cursor }, none)) hgoTo

/-- A cursor that is open on a part of the source stands between two characters of this part, and has before it what is
left there. -/
theorem Opened.On.bounds (h : o.On source front range behind) :
    (∀ place ∈ [o.start, o.cursor.offset, o.cursor.stop], (Text.splitAt? place source.toList).isSome) ∧
      o.start ≤ o.cursor.offset ∧ o.cursor.offset ≤ o.cursor.stop ∧ o.cursor.stop ≤ size source.toList ∧
      Text.slice? o.cursor.offset o.cursor.stop source.toList = some o.cursor.rest := by
  obtain ⟨passed, hrange, hoffset⟩ := h.place
  have hcut : ∀ before more, source.toList = before ++ more → (Text.splitAt? (size before) source.toList).isSome := by
    intro before more hsource
    rw [hsource, Text.splitAt?_size]
    rfl
  have hsize : size source.toList = size front + (size range + size behind) := by
    rw [h.parts, Text.size_append, Text.size_append]
  have hlength : size range = size passed + size o.cursor.rest := by rw [hrange, Text.size_append]
  have hslice := slice?_left front passed o.cursor.rest behind
  rw [← hrange, ← h.stop, ← hoffset, ← h.parts] at hslice
  have hstart := h.start
  have hstop := h.stop
  refine ⟨?_, by omega, by omega, by omega, hslice⟩
  simp only [List.forall_mem_cons, List.not_mem_nil, false_implies, implies_true, and_true]
  refine ⟨?_, ?_, ?_⟩
  · rw [hstart]
    exact hcut front _ h.parts
  · rw [hoffset, ← Text.size_append]
    exact hcut (front ++ passed) (o.cursor.rest ++ behind) (by rw [h.parts, hrange]; simp)
  · rw [hstop, ← Text.size_append]
    exact hcut (front ++ range) behind (by rw [h.parts, List.append_assoc])

/-- A cursor at the start of a source, set up for reading. -/
def root (source : String) (newlineEnds completing : Bool) (known : Ordered.NameMap ValueType) : Cursor :=
  { ofSource source with newlineEnds, completing, known }

/-- Cursors are always safe.  Take a cursor over a whole text and do anything to it and to the children that are cut
off, in any order.  Then every cursor stands between two characters of the text, from the beginning of its range to its
end, which is not behind the end of the text; what it has before it is the text from there to the end of the range.  The
range of a child lies inside that of its parent, and no action changes a range.  Whatever is done next, the answer and
the place of the cursor after it are the same with any text that agrees up to the end of the range. -/
theorem cursors_are_safe (source : String) (newlineEnds completing : Bool) (known : Ordered.NameMap ValueType)
    (steps : List (Nat × Action)) :
    ∀ o ∈ (root source newlineEnds completing known).history steps,
      (∀ place ∈ [o.start, o.cursor.offset, o.cursor.stop], (Text.splitAt? place source.toList).isSome) ∧
      (o.start ≤ o.cursor.offset ∧ o.cursor.offset ≤ o.cursor.stop ∧ o.cursor.stop ≤ size source.toList) ∧
      Text.slice? o.cursor.offset o.cursor.stop source.toList = some o.cursor.rest ∧
      (∀ j ∈ o.parent, ∃ p, ((root source newlineEnds completing known).history steps)[j]? = some p ∧ o.Inside p) ∧
      ∀ a, ((o.after a).start = o.start ∧ (o.after a).cursor.stop = o.cursor.stop) ∧
        ∀ source', AgreeUpTo o.cursor.stop source source' → (o.withSource source').perform a =
          ((o.perform a).1, (o.after a).withSource source', (o.perform a).2.2.map (Cursor.withSource source')) := by
  have hroot : (root source newlineEnds completing known).InSource :=
    ⟨[], [], (List.append_nil _).symm, rfl, (Nat.zero_add _).symm⟩
  have hsound : Sound source _ := sound_history hroot steps
  intro o ho
  obtain ⟨front, range, behind, hon⟩ := hsound.on o ho
  obtain ⟨hplaces, hstart, hstop, hend, hslice⟩ := hon.bounds
  exact ⟨hplaces, ⟨hstart, hstop, hend⟩, hslice, hsound.nested o ho, fun a =>
    ⟨hon.same_range (hon.perform a).1, fun _ hagree => hon.perform_withSource hagree a⟩⟩

/-- Behind the opening brace and a character of four bytes the child has two bytes before it, and reads them whatever
follows the closing brace. -/
theorem cursors_are_safe_in_braces :
    ∃ o ∈ (root "é{😀x}y" false false .empty).history [(0, .ask .next), (0, .slice '{' '}'), (1, .ask .next)],
      (o.parent = some 0 ∧ o.start = 3 ∧ o.cursor.offset = 7 ∧ o.cursor.stop = 9) ∧
      Text.slice? 7 9 "é{😀x}y".toList = some o.cursor.rest ∧
      ((o.withSource "é{😀x} and more").perform (.ask .next)).1 = (o.perform (.ask .next)).1 := by
  have hchild : ∃ o ∈ ((root "é{😀x}y" false false .empty).history
      [(0, .ask .next), (0, .slice '{' '}'), (1, .ask .next)])[1]?,
        o.parent = some 0 ∧ o.start = 3 ∧ o.cursor.offset = 7 ∧ o.cursor.stop = 9 := ⟨_, rfl, by decide⟩
  obtain ⟨o, ho, hparent, hstart, hoffset, hstop⟩ := hchild
  have hagree : AgreeUpTo o.cursor.stop "é{😀x}y" "é{😀x} and more" :=
    ⟨['é', '{', '😀', 'x', '}'], ['y'], " and more".toList, by decide, by decide, hstop ▸ by decide⟩
  have hmem := List.mem_of_getElem? ho
  obtain ⟨-, -, hslice, -, hlocal⟩ := cursors_are_safe "é{😀x}y" false false .empty _ o hmem
  rw [hoffset, hstop] at hslice
  refine ⟨o, hmem, ⟨hparent, hstart, hoffset, hstop⟩, hslice, ?_⟩
  rw [(hlocal (.ask .next)).2 _ hagree]

end KeyConsole.Console.Cursor
