import KeyConsole.Proofs.Console.Recursion

/-!
# Proofs.Console.Descent: reading an expression ends

An expression is read by loops and by blocks and lists in one another.  Each further round of a loop, and each
descent into a block or a list, begins where there are fewer bytes left of the range.
-/

namespace KeyConsole.Console

open Reading

variable {c : Cursor} {t : ValueType} {item item' : Reading Value}

/-! ### Marks between commands -/

namespace Cursor

/-- Each mark, with the spaces behind it, leaves less. -/
theorem inside_of_joint? {piped : Option ValueType} {j : Joint} (h : c.joint? piped = some j) :
    j.after.skipSpace.Inside c := by
  have hmark : ∃ x, c.Passes [x] j.after := by
    unfold joint? at h
    split_ifs at h with hsemicolon hbar hnewline
    · cases h
      exact ⟨';', (advances_next_of_peek hsemicolon).passes⟩
    · cases h
      obtain ⟨-, hpeek⟩ := (Bool.and_eq_true _ _).mp hbar
      exact ⟨'|', (advances_next_of_peek (of_decide_eq_true hpeek)).passes⟩
    · cases h
      obtain ⟨-, hpeek⟩ := (Bool.and_eq_true _ _).mp hnewline
      exact ⟨'\n', (advances_next_of_peek (of_decide_eq_true hpeek)).passes⟩
  obtain ⟨x, hx⟩ := hmark
  obtain ⟨space, hspace, -⟩ := advances_skipSpace j.after
  exact (hx.inside (List.cons_ne_nil x [])).passes hspace.passes

/-- A bound that is not less than what is left does not stop the loop. -/
theorem moreJoints_of_le {n m : Nat} {j : Joint} (hn : j.after.rest.length ≤ n) (hm : j.after.rest.length ≤ m) :
    moreJoints n j = moreJoints m j := by
  have hstay : ∀ {n : Nat} {j : Joint}, j.after.rest.length ≤ 0 → moreJoints n j = j := by
    intro n j hle
    have hnone : j.after.joint? j.piped = none := by
      cases hjoint : j.after.joint? j.piped with
      | none => rfl
      | some k =>
        have hshorter := (inside_of_joint? hjoint).shorter
        omega
    cases n with
    | zero => rfl
    | succ n =>
      unfold moreJoints
      rw [hnone]
      exact ite_self j
  induction n generalizing m j with
  | zero => rw [hstay hn, hstay hn]
  | succ n ih =>
    cases m with
    | zero => rw [hstay hm, hstay hm]
    | succ m =>
      unfold moreJoints
      split
      · rfl
      · split
        · rfl
        · rename_i k hk
          have hshorter := (inside_of_joint? hk).shorter
          refine ih (j := { k with after := k.after.skipSpace }) ?_ ?_ <;> dsimp only <;> omega

theorem allJoints_eq (j : Joint) :
    allJoints j =
      if j.expected then j
      else
        match j.after.joint? j.piped with
        | none => j
        | some k => allJoints { k with after := k.after.skipSpace } := by
  have hmore : allJoints j = moreJoints (j.after.rest.length + 1) j := moreJoints_of_le (Nat.le_refl _) (Nat.le_succ _)
  rw [hmore, moreJoints]
  cases hjoint : j.after.joint? j.piped with
  | none => rfl
  | some k =>
    have hfuel : moreJoints j.after.rest.length { k with after := k.after.skipSpace }
        = allJoints { k with after := k.after.skipSpace } :=
      moreJoints_of_le (Nat.le_of_lt (inside_of_joint? hjoint).shorter) (Nat.le_refl _)
    dsimp only
    rw [hfuel]

end Cursor

/-! ### Lists -/

namespace Literal

theorem items_eq_iterate (n : Nat) : items t item n = (round t item)^[n] fun _ => failure := by
  induction n with
  | zero => rfl
  | succ n ih => rw [items, Function.iterate_succ_apply', ih]

theorem nested_eq_iterate (depth : Nat) : nested depth = form^[depth] fun _ => failure := by
  induction depth with
  | zero => rfl
  | succ depth ih => rw [nested, Function.iterate_succ_apply', ih]

/-- An item, and the rest of the items, are read only in the block of the list. -/
theorem alike_round {b : Cursor} {rest rest' : List Value → Reading (List Value)}
    (h : ∀ e : Cursor, e.Inside c → AlikeFrom e item item')
    (hrest : ∀ e : Cursor, e.Inside c → ∀ read, AlikeFrom e (rest read) (rest' read)) (hb : b.Inside c)
    (read : List Value) : AlikeFrom b (round t item rest read) (round t item' rest' read) := by
  refine AlikeFrom.next (Passing.skipSpace b) fun _ _ a ha _ => ?_
  refine AlikeFrom.next (Passing.eat ']' a) fun _ closed e he _ => AlikeFrom.ite (fun _ => .pure) fun _ => ?_
  have hinside := (hb.passes ha).passes he
  refine AlikeFrom.bind (h e hinside) fun _ v f hf => ?_
  refine AlikeFrom.next (Passing.skipSpace f) fun _ _ g hg _ => ?_
  refine AlikeFrom.next (Passing.eat ',' g) fun _ more m hm _ => AlikeFrom.ite (fun _ => ?_) fun _ => ?_
  · exact hrest m (((hinside.passes hf).passes hg).passes hm) _
  · refine AlikeFrom.next (Passing.eat ']' m) fun _ _ last _ _ => AlikeFrom.ite (fun _ => .pure) fun _ => ?_
    exact AlikeFrom.look (AlikeFrom.look .refuse)

theorem alike_items {b : Cursor} (h : ∀ e : Cursor, e.Inside c → AlikeFrom e item item') (hb : b.Inside c) (n : Nat)
    (read : List Value) : AlikeFrom b (items t item n read) (items t item' n read) := by
  induction n generalizing b read with
  | zero => exact .refl (P := fun _ _ _ => True) .failure
  | succ n ih => exact alike_round h (fun _ he read => ih he read) hb read

theorem alike_list (h : ∀ e : Cursor, e.Inside c → AlikeFrom e item item') :
    AlikeFrom c (list t item) (list t item') := by
  refine ⟨?_, passing_list.forward c⟩
  rw [run_list, run_list]
  cases hslice : c.slice? '[' ']' with
  | none => rfl
  | some found =>
    obtain ⟨child, after⟩ := found
    have hchild : child.Inside c := Cursor.inside_of_slice? hslice
    dsimp only
    have hitems : AlikeFrom child (allItems t item []) (allItems t item' []) :=
      AlikeFrom.look (alike_items h hchild _ [])
    rw [hitems.same]

/-- A further round begins behind a comma. -/
theorem descending_round (hitem : Forward item) : Descending (round t item) := by
  intro c x y h read
  refine AlikeFrom.next (Passing.skipSpace c) fun _ _ a ha _ => ?_
  refine AlikeFrom.next (Passing.eat ']' a) fun _ _ b hb _ => AlikeFrom.ite (fun _ => .pure) fun _ => ?_
  refine AlikeFrom.next (hitem b) fun _ v e he _ => AlikeFrom.next (Passing.skipSpace e) fun _ _ f hf _ => ?_
  refine AlikeFrom.next (covers_eat ',' f) fun comma found g hg hcomma => ?_
  cases found with
  | true =>
    obtain rfl : comma = [','] := hcomma
    have hbefore := (ha.trans hb).trans (he.trans hf)
    exact h g ((hg.inside (List.cons_ne_nil _ _)).of_passes hbefore) _
  | false =>
    refine AlikeFrom.next (Passing.eat ']' g) fun _ _ last _ _ => AlikeFrom.ite (fun _ => .pure) fun _ => ?_
    exact AlikeFrom.look (AlikeFrom.look .refuse)

/-- A list in a list is read in the block of the outer one. -/
theorem descending_form : Descending form := by
  intro c x y h t
  refine AlikeFrom.next (Passing.skipSpace c) fun _ _ b hb _ => ?_
  have hlist : ∀ t u, AlikeFrom b (list t (x u)) (list t (y u)) :=
    fun t u => alike_list fun e he => h e (he.of_passes hb) u
  cases t with
  | void => exact AlikeFrom.look (.refl (passing_unreadable b))
  | int => exact .refl (passing_scalar b)
  | float => exact .refl (passing_scalar b)
  | bool => exact .refl (passing_scalar b)
  | string => exact .refl (passing_text b)
  | list element => exact hlist _ _
  | any =>
    refine AlikeFrom.look ?_
    split
    · exact hlist _ _
    · exact .refl (passing_text b)
    · exact .refl (passing_bareWord b)

theorem ends_allItems (hitem : Forward item) : Ends (round t item) (allItems t item) := by
  refine (descending_round hitem).ends fun read c => ?_
  rw [allItems, run_look, items_eq_iterate, run_unrolled]

theorem ends_literal : Ends form literal := by
  refine descending_form.ends fun t c => ?_
  rw [literal, run_look, nested_eq_iterate, run_unrolled]

end Literal

namespace Reading

variable {d : Directory} {nested : BlockReading} {once : Bool}

theorem steps_eq_iterate (n : Nat) : steps d nested once n = (row d nested once)^[n] fun _ => failure := by
  induction n with
  | zero => rfl
  | succ n ih => rw [steps, Function.iterate_succ_apply', ih]

/-! ### Blocks -/

variable {nested' : BlockReading} {b : Cursor} {piped target : Option ValueType} {command : String}

section

variable (h : ∀ e : Cursor, e.Inside c → ∀ once piped target,
  AlikeFrom e (nested once piped target) (nested' once piped target))

include h

theorem alike_block (hb : b.Inside c) :
    AlikeFrom b (block nested piped target) (block nested' piped target) := by
  refine AlikeFrom.next (Passing.skipSpace b) fun _ _ e he _ => AlikeFrom.look ?_
  refine AlikeFrom.next (Passing.eat '{' e) fun _ brace f hf _ => AlikeFrom.ite (fun _ => ?_) fun _ => ?_
  · have hinside : f.Inside c := (hb.passes he).passes hf
    have hinside : (f.pushCloser '}').Inside c := ⟨hinside.part, hinside.shorter⟩
    refine AlikeFrom.enclosed (h _ hinside false piped target) fun e => ?_
    exact Covers.next (passing_spanFrom _) fun _ _ _ _ => .refuse
  · have hinside : f.Inside c := (hb.passes he).passes hf
    exact h f hinside true piped target

theorem alike_argument (hb : b.Inside c) (p : Parameter) :
    AlikeFrom b (argument nested command piped p) (argument nested' command piped p) := by
  refine AlikeFrom.next (Passing.skipSpace b) fun _ _ e he _ => AlikeFrom.get ?_
  have hinside := hb.passes he
  refine AlikeFrom.ite (fun _ => ?_) fun _ => AlikeFrom.ite (fun _ => .refuse) fun _ => ?_
  · exact AlikeFrom.next (Passing.offer _ e) fun _ _ f _ _ => .refl (passing_refuseEnd f)
  · cases p.kind with
    | value t =>
      dsimp only
      split
      · exact AlikeFrom.next (passing_variableName _ e) fun _ _ _ _ _ => .pure
      · exact AlikeFrom.bind (alike_block h hinside) fun _ _ _ _ => .pure
      · exact AlikeFrom.next (passing_literal t e) fun _ _ _ _ _ => .pure
    | block feed output => exact AlikeFrom.bind (alike_block h hinside) fun _ _ _ _ => .pure
    | assign =>
      refine AlikeFrom.next (passing_variableName _ e) fun _ name f _ _ => ?_
      exact .refl (Covers.move (Q := fun _ _ _ => True) (Cursor.passes_declare _ _ f) (.pure trivial))
    | «variable» => exact AlikeFrom.next (passing_variableName _ e) fun _ _ _ _ _ => .pure

theorem alike_arguments (hb : b.Inside c) (ps : List Parameter) :
    AlikeFrom b (arguments nested command piped ps) (arguments nested' command piped ps) := by
  induction ps generalizing b with
  | nil => exact .pure
  | cons p ps ih =>
    refine AlikeFrom.bind (alike_argument h hb p) fun _ a e he => AlikeFrom.look ?_
    exact AlikeFrom.bind (ih (hb.passes he)) fun _ _ _ _ => .pure

/-- Blocks are read only behind the head of the command. -/
theorem alike_command (start : Nat) :
    AlikeFrom c (Reading.command d nested piped start) (Reading.command d nested' piped start) := by
  refine AlikeFrom.next (covers_commandHead d piped c) fun text head e htext ⟨hne, _⟩ => ?_
  refine AlikeFrom.bind (alike_arguments h (htext.inside hne) _) fun _ read f _ => ?_
  exact AlikeFrom.next (passing_spanFrom _ f) fun _ _ _ _ _ => .pure

theorem covers_command_word (start : Nat) :
    Covers c (Reading.command d nested piped start) fun text _ _ => text ≠ [] :=
  covers_command_of fun htext hne _ _ _ =>
    (alike_arguments h (htext.inside hne) _).forward.mono fun _ _ _ _ _ hnil => hne (List.append_eq_nil_iff.mp hnil).1

/-- The rest of the commands begins behind the first of them. -/
theorem alike_row {rest rest' : Option ValueType → Reading Steps}
    (hrest : ∀ e : Cursor, e.Inside c → ∀ piped, AlikeFrom e (rest piped) (rest' piped)) (piped : Option ValueType) :
    AlikeFrom c (row d nested once rest piped) (row d nested' once rest' piped) := by
  refine AlikeFrom.look (AlikeFrom.follow (alike_command h _) (covers_command_word h _) fun word s a ha hne => ?_)
  refine AlikeFrom.ite (fun _ => .pure) fun _ => AlikeFrom.look ?_
  refine AlikeFrom.next (Passing.skipSpace a) fun _ _ b hb _ => AlikeFrom.look ?_
  obtain ⟨marks, hadvanced, -⟩ := Cursor.advances_joints (some s.returns) b
  have hmarks := hadvanced.passes
  refine AlikeFrom.set hmarks (AlikeFrom.get ?_)
  refine AlikeFrom.ite (fun _ => .pure) fun _ => AlikeFrom.ite (fun _ => .refuse) fun _ =>
    AlikeFrom.ite (fun _ => ?_) fun _ => AlikeFrom.ite (fun _ => ?_) fun _ =>
      AlikeFrom.ite (fun _ => .refuse) fun _ => ?_
  · exact AlikeFrom.next (Passing.offer _ _) fun _ _ e _ _ => .refl (passing_refuseEnd e)
  · extract_lets ended
    refine .refl (P := fun _ _ _ => True) (Covers.ite (fun _ => ?_) fun _ => .pure trivial)
    exact Covers.next (.offer _) fun _ _ _ _ => .pure trivial
  · refine AlikeFrom.bind (hrest _ ?_ _) fun _ _ _ _ => .pure
    exact ((ha.inside hne).passes hb).passes hmarks

theorem alike_commands (piped : Option ValueType) :
    AlikeFrom c (commands d nested once piped) (commands d nested' once piped) := by
  refine AlikeFrom.look ?_
  generalize c.rest.length + 1 = n
  induction n generalizing c piped with
  | zero => exact .refl (P := fun _ _ _ => True) .failure
  | succ n ih => exact alike_row h (fun e he piped => ih (fun f hf => h f (hf.trans he)) piped) piped

/-- The blocks of a pipeline are read only inside of it. -/
theorem alike_pipeline : AlikeFrom c (pipeline d nested once piped target) (pipeline d nested' once piped target) := by
  refine AlikeFrom.next (Passing.skipSpace c) fun _ _ b hb _ => AlikeFrom.look (AlikeFrom.look ?_)
  extract_lets behind behind'
  have hbehind : ∀ u, AlikeFrom b (behind u) (behind' u) := by
    intro u
    refine AlikeFrom.bind (alike_commands (fun e he => h e (he.of_passes hb)) piped) fun _ read e _ => ?_
    refine AlikeFrom.ite (fun _ => AlikeFrom.look .pure) fun _ => ?_
    exact AlikeFrom.next (passing_spanFrom _ e) fun _ _ _ _ _ => .refuse
  refine AlikeFrom.ite (fun _ => ?_) fun _ => hbehind ()
  exact AlikeFrom.next (P := fun _ _ _ => False) .refuse fun _ _ _ _ hfalse => hfalse.elim

end

/-- What a block can be: a whole pipeline or a single command, the type piped to it and the type that it has to
return. -/
abbrev BlockKind := Bool × Option ValueType × Option ValueType

/-- A block whose own blocks are read by `inner`. -/
def blockForm (d : Directory) (inner : BlockKind → Reading Pipeline) (kind : BlockKind) : Reading Pipeline :=
  pipeline d (fun once piped target => inner (once, piped, target)) kind.1 kind.2.1 kind.2.2

theorem readNested_eq_iterate (depth : Nat) (once : Bool) (piped target : Option ValueType) :
    readNested d depth once piped target = (blockForm d)^[depth] (fun _ => failure) (once, piped, target) := by
  induction depth generalizing once piped target with
  | zero => rfl
  | succ depth ih =>
    have hinner : readNested d depth
        = fun once piped target => (blockForm d)^[depth] (fun _ => failure) (once, piped, target) := by
      funext once piped target
      exact ih once piped target
    rw [Function.iterate_succ_apply', readNested, hinner]
    rfl

/-- Blocks, nested as deep as there are characters left. -/
def blocks (d : Directory) (kind : BlockKind) : Reading Pipeline := do
  readNested d ((← look fun c => c.rest.length) + 1) kind.1 kind.2.1 kind.2.2

theorem forward_readNested (d : Directory) (depth : Nat) (once : Bool) (piped target : Option ValueType) :
    Forward (readNested d depth once piped target) := by
  induction depth generalizing once piped target with
  | zero => exact fun _ => .failure
  | succ depth ih => exact fun c => (alike_pipeline fun e _ once piped target => .refl (ih once piped target e)).forward

theorem ends_blocks (d : Directory) : Ends (blockForm d) (blocks d) := by
  have hdescending : Descending (blockForm d) := fun _ _ _ h _ => alike_pipeline fun e he _ _ _ => h e he _
  refine hdescending.ends fun ⟨once, piped, target⟩ c => ?_
  rw [blocks, run_look, readNested_eq_iterate, run_unrolled]

theorem ends_commands (d : Directory) (once : Bool)
    (hnested : ∀ once piped target, Forward (nested once piped target)) :
    Ends (row d nested once) (commands d nested once) := by
  have hdescending : Descending (row d nested once) :=
    fun _ _ _ h piped => alike_row (fun e _ once piped target => .refl (hnested once piped target e)) h piped
  refine hdescending.ends fun piped c => ?_
  rw [commands, run_look, steps_eq_iterate, run_unrolled]

end Reading

open Reading Cursor in
/-- The reading of an expression ends.  A block and what it is nested in, a command of a row and those behind it, a list
and the list around it, an item and those behind it: each is a recursion that goes on only where there are fewer bytes
left of the range, that holds without a bound, and that is never deeper than there are bytes left.  Likewise each mark
between two commands leaves fewer bytes, and the loop over the marks has no bound. -/
theorem reading_ends (d : Directory) :
    (∀ c : Cursor, c.InSource → c.left = c.stop - c.offset) ∧
    (Ends (blockForm d) (blocks d) ∧ ∀ piped, whole d piped = blocks d (false, piped, none)) ∧
    (∀ depth once, Ends (row d (readNested d depth) once) (commands d (readNested d depth) once)) ∧
    Ends Literal.form literal ∧
    (∀ t depth element, Ends (Literal.round t (Literal.nested depth element))
      (Literal.allItems t (Literal.nested depth element))) ∧
    (∀ (c : Cursor) piped j, c.joint? piped = some j → j.after.skipSpace.left < c.left) ∧
    (∀ j n, j.after.left ≤ n → moreJoints n j = allJoints j) ∧
    (∀ j, allJoints j =
      if j.expected then j
      else
        match j.after.joint? j.piped with
        | none => j
        | some k => allJoints { k with after := k.after.skipSpace }) ∧
    ∀ (piped : Option ValueType) (c : Cursor), c.joints piped =
      match c.joint? piped with
      | none => ⟨false, piped, c⟩
      | some j => allJoints { j with after := j.after.skipSpace } := by
  refine ⟨fun c => left_eq_of_inSource, ⟨ends_blocks d, fun _ => rfl⟩,
    fun depth once => ends_commands d once (forward_readNested d depth), Literal.ends_literal,
    fun t depth element => Literal.ends_allItems (Literal.passing_nested depth element).forward,
    fun c piped j h => ?_, fun j n h => ?_, allJoints_eq, fun _ _ => rfl⟩
  · exact (inside_of_joint? h).left_lt
  · exact moreJoints_of_le (Nat.le_trans (length_le_left j.after) h) (Nat.le_refl _)

end KeyConsole.Console
