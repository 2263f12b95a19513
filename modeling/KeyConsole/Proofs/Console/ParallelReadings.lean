import KeyConsole.Proofs.Console.Respelling

/-!
# Proofs.Console.ParallelReadings: one reading from two alike cursors

Two readings go side by side from alike cursors.  They agree if both yield, alike things and alike cursors, or if
neither does; where the second keeps requests, the first may also yield alone, but only at the end of the range,
and then something of its own kind.
-/

namespace KeyConsole.Console

open Text (size)

namespace Cursor

/-- Nothing is left of the range, which ends at `bound`. -/
structure Ended (bound : Nat) (c : Cursor) : Prop where
  rest : c.rest = []
  offset : c.offset = bound
  stop : c.stop = bound

variable {bound : Nat} {c e : Cursor} {text : List Char}

theorem Ended.atEnd (h : c.Ended bound) : c.atEnd = true := by
  unfold Cursor.atEnd
  rw [h.offset, h.stop]
  exact decide_eq_true (Nat.le_refl _)

/-- Behind the end there is nothing to pass. -/
theorem Ended.passes (hc : c.Ended bound) (h : c.Passes text e) : text = [] ∧ e.Ended bound := by
  obtain ⟨htext, hrest⟩ := List.append_eq_nil_iff.mp (h.rest.symm.trans hc.rest)
  refine ⟨htext, hrest, ?_, h.stop.trans hc.stop⟩
  rw [h.offset, htext, Text.size_nil, hc.offset, Nat.add_zero]

theorem Alike.ended {ends : Bool} {w : TwoReadings ends} {c' : Cursor} (h : Alike w bound c c')
    (hend : c.atEnd = true) : c.Ended bound := by
  have hrest := h.rest_of_atEnd hend
  obtain ⟨before, after, -, -, hstop⟩ := h.placed
  rw [hrest, Text.size_nil, Nat.add_zero] at hstop
  exact ⟨hrest, hstop.symm, h.stop⟩

end Cursor

namespace Reading

open Cursor (Alike Ended)

variable {ends : Bool} {w : TwoReadings ends} {bound : Nat} {c c' : Cursor} {α β : Type}
  {S : α → α → Prop} {B : α → Prop} {S' : β → β → Prop} {B' : β → Prop} {x x' : Reading α} {k k' : α → Reading β}

/-- How two readings side by side may come out: `S` relates what they yield, and `B` holds of what the first yields
alone. -/
inductive Outcomes (w : TwoReadings ends) (bound : Nat) (S : α → α → Prop) (B : α → Prop) :
    Option α × Cursor → Option α × Cursor → Prop where
  | both {a a' : α} {e e' : Cursor} (ha : S a a') (he : Alike w bound e e') :
      Outcomes w bound S B (some a, e) (some a', e')
  | neither {e e' : Cursor} : Outcomes w bound S B (none, e) (none, e')
  | first {a : α} {e e' : Cursor} (hw : w.completing = true) (he : e.Ended bound) (ha : B a) :
      Outcomes w bound S B (some a, e) (none, e')

/-- The reading `x` from `c` and the reading `x'` from `c'` come out alike. -/
def Agree (w : TwoReadings ends) (bound : Nat) (S : α → α → Prop) (B : α → Prop) (c c' : Cursor)
    (x x' : Reading α) : Prop := Outcomes w bound S B (x.run.run c) (x'.run.run c')

/-- The reading comes out alike from alike cursors: with the same answer, or with none. -/
def Steady (w : TwoReadings ends) (x : Reading α) : Prop :=
  ∀ ⦃bound c c'⦄, Alike w bound c c' → Agree w bound Eq (fun _ => False) c c' x x

/-! ### One reading after the other -/

namespace Agree

theorem pure {a a' : α} (ha : S a a') (h : Alike w bound c c') :
    Agree w bound S B c c' (Pure.pure a) (Pure.pure a') := .both ha h

/-- Both readings fail from where they are. -/
theorem neither (hx : Covers c x fun _ _ _ => False) (hx' : Covers c' x' fun _ _ _ => False) :
    Agree w bound S B c c' x x' := by
  unfold Agree
  unfold Covers at hx hx'
  revert hx hx'
  generalize x.run.run c = o
  generalize x'.run.run c' = o'
  intro hx hx'
  obtain ⟨- | a, e⟩ := o
  · obtain ⟨- | a', e'⟩ := o'
    · exact .neither
    · obtain ⟨-, -, hfalse⟩ := hx' a' rfl
      exact hfalse.elim
  · obtain ⟨-, -, hfalse⟩ := hx a rfl
    exact hfalse.elim

/-- Both readings fail from anywhere. -/
theorem fails (hx : x.Yields fun _ => False) (hx' : x'.Yields fun _ => False) : Agree w bound S B c c' x x' :=
  neither (fun a ha => (hx c a ha).elim) fun a' ha' => (hx' c' a' ha').elim

/-- The second reading fails, and the first is at the end of the range. -/
theorem alone (hw : w.completing = true) (hc : c.Ended bound) (hx : Covers c x fun _ a _ => B a)
    (hx' : x'.Yields fun _ => False) : Agree w bound S B c c' x x' := by
  have hnone' := fun a => hx' c' a
  unfold Agree
  unfold Covers at hx
  revert hx hnone'
  generalize x.run.run c = o
  generalize x'.run.run c' = o'
  intro hx hnone'
  obtain ⟨- | a', e'⟩ := o'
  · obtain ⟨- | a, e⟩ := o
    · exact .neither
    · obtain ⟨text, htext, ha⟩ := hx a rfl
      exact .first hw (hc.passes htext).2 ha
  · exact (hnone' a' rfl).elim

theorem bind (hx : Agree w bound S B c c' x x')
    (hk : ∀ a a' e e', x.run.run c = (some a, e) → S a a' → Alike w bound e e' →
      Agree w bound S' B' e e' (k a) (k' a'))
    (hB : ∀ a e, x.run.run c = (some a, e) → e.Ended bound → B a → Covers e (k a) fun _ b _ => B' b) :
    Agree w bound S' B' c c' (x >>= k) (x' >>= k') := by
  unfold Agree at hx ⊢
  rw [run_bind, run_bind]
  revert hx hk hB
  generalize x.run.run c = o
  generalize x'.run.run c' = o'
  intro hx hk hB
  cases hx with
  | both ha he => exact hk _ _ _ _ rfl ha he
  | neither => exact .neither
  | @first a e e' hw he ha =>
    have halone : Agree w bound S' B' e e' (k a) Alternative.failure := alone hw he (hB a e rfl he ha) .failure
    exact halone

/-- A first reading that comes out with the same answer. -/
theorem next (hx : Steady w x) (h : Alike w bound c c')
    (hk : ∀ a e e', x.run.run c = (some a, e) → Alike w bound e e' → Agree w bound S' B' e e' (k a) (k' a)) :
    Agree w bound S' B' c c' (x >>= k) (x >>= k') := by
  refine bind (hx h) (fun a a' e e' hrun ha he => ?_) fun a e _ _ ha => ha.elim
  subst ha
  exact hk a e e' hrun he

theorem mono {T : α → α → Prop} {D : α → Prop} (hx : Agree w bound S B c c' x x') (hS : ∀ a a', S a a' → T a a')
    (hB : ∀ a, B a → D a) : Agree w bound T D c c' x x' := by
  unfold Agree at hx ⊢
  revert hx
  generalize x.run.run c = o
  generalize x'.run.run c' = o'
  intro hx
  cases hx with
  | both ha he => exact .both (hS _ _ ha) he
  | neither => exact .neither
  | first hw he ha => exact .first hw he (hB _ ha)

/-- Asking both cursors first. -/
theorem looked {f f' : Cursor → α} (hk : Agree w bound S' B' c c' (k (f c)) (k' (f' c'))) :
    Agree w bound S' B' c c' (Reading.look f >>= k) (Reading.look f' >>= k') := hk

theorem got {k k' : Cursor → Reading β} (hk : Agree w bound S' B' c c' (k c) (k' c')) :
    Agree w bound S' B' c c' (MonadState.get >>= k) (MonadState.get >>= k') := hk

/-- Going to two places first. -/
theorem set {e e' : Cursor} {k k' : PUnit → Reading β} (hk : Agree w bound S' B' e e' (k ⟨⟩) (k' ⟨⟩)) :
    Agree w bound S' B' c c' (MonadStateOf.set e >>= k) (MonadStateOf.set e' >>= k') := hk

theorem moved {f f' : Cursor → Cursor} {k k' : Unit → Reading β}
    (hk : Agree w bound S' B' (f c) (f' c') (k ()) (k' ())) :
    Agree w bound S' B' c c' (Reading.move f >>= k) (Reading.move f' >>= k') := hk

theorem stepped {f f' : Cursor → α × Cursor}
    (hk : Agree w bound S' B' (f c).2 (f' c').2 (k (f c).1) (k' (f' c').1)) :
    Agree w bound S' B' c c' (Reading.step f >>= k) (Reading.step f' >>= k') := hk

theorem ite {p p' : Prop} [Decidable p] [Decidable p'] {y y' : Reading α} (hp : p' ↔ p)
    (hx : p → Agree w bound S B c c' x x') (hy : ¬p → Agree w bound S B c c' y y') :
    Agree w bound S B c c' (if p then x else y) (if p' then x' else y') := by
  by_cases h : p
  · rw [if_pos h, if_pos (hp.mpr h)]
    exact hx h
  · rw [if_neg h, if_neg fun h' => h (hp.mp h')]
    exact hy h

/-- What children read of their blocks. -/
theorem inChild {child child' : Cursor} {inner : Nat}
    (hx : Agree w inner Eq (fun _ => False) child child' x x') (h : Alike w bound c c') :
    Agree w bound Eq (fun _ => False) c c' (Reading.inChild child x) (Reading.inChild child' x') := by
  unfold Agree at hx
  unfold Reading.inChild
  revert hx
  generalize x.run.run child = o
  generalize x'.run.run child' = o'
  intro hx
  cases hx with
  | both ha _ => exact .both ha h
  | neither => exact fails (.next fun _ => .failure) (.next fun _ => .failure)
  | first _ _ ha => exact ha.elim

end Agree

namespace Steady

theorem pure {a : α} : Steady w (Pure.pure a : Reading α) := fun _ _ _ h => .pure rfl h

theorem failure : Steady w (Alternative.failure : Reading α) := fun _ _ _ _ => .fails .failure .failure

theorem refuse {cause : Cause} {span : Span} : Steady w (Reading.refuse cause span : Reading α) :=
  fun _ _ _ _ => .fails .refuse .refuse

theorem next (hx : Steady w x) (hk : ∀ a, Steady w (k a)) : Steady w (x >>= k) :=
  fun _ _ _ h => Agree.next hx h fun a _ _ _ he => hk a he

theorem looked {f : Cursor → α} (hf : ∀ ⦃bound c c'⦄, Alike w bound c c' → f c' = f c) :
    Steady w (Reading.look f) := fun _ _ _ h => .both (hf h).symm h

theorem move {f : Cursor → Cursor} (hf : ∀ ⦃bound c c'⦄, Alike w bound c c' → Alike w bound (f c) (f c')) :
    Steady w (Reading.move f) := fun _ _ _ h => .both rfl (hf h)

theorem step {f : Cursor → α × Cursor}
    (hf : ∀ ⦃bound c c'⦄, Alike w bound c c' → (f c').1 = (f c).1 ∧ Alike w bound (f c).2 (f c').2) :
    Steady w (Reading.step f) := fun _ _ _ h => .both (hf h).1.symm (hf h).2

theorem ite {p : Prop} [Decidable p] {y : Reading α} (hx : Steady w x) (hy : Steady w y) :
    Steady w (if p then x else y) :=
  fun _ _ _ h => .ite Iff.rfl (fun _ => hx h) fun _ => hy h

theorem skipSpace : Steady w Reading.skipSpace := move fun _ _ _ h => h.skipSpace

theorem eat {mark : Char} (hmark : mark ≠ '\n' ∧ mark ≠ ';') : Steady w (Reading.eat mark) :=
  step fun _ _ _ h => h.eat mark hmark

theorem offset : Steady w Reading.offset := looked fun _ _ _ h => h.offset

theorem atEnd : Steady w (Reading.look Cursor.atEnd) := looked fun _ _ _ h => h.atEnd

theorem offer (request : Request) : Steady w (Reading.move (·.offer request)) :=
  move fun _ _ _ h => h.offer request request

variable {test : Char → Bool} (ht : Respelling.Overlooked ends test)

include ht

theorem upcoming : Steady w (Reading.look (Cursor.upcoming test)) := looked fun _ _ _ h => h.upcoming ht

theorem skip : Steady w (Reading.move (Cursor.skip test)) := move fun _ _ _ h => h.skip ht

theorem word : Steady w (Reading.step (Cursor.word test)) := step fun _ _ _ h => h.word ht

end Steady

end Reading

open Reading Respelling
open Cursor (Alike)

variable {ends : Bool} {w : TwoReadings ends} {bound : Nat} {c c' : Cursor}

/-! ### Literals -/

namespace Literal

variable {t : ValueType}

theorem steady_unreadable {α : Type} {start : Nat} {input : String} :
    Steady w (unreadable start input t : Reading α) := fun _ _ _ _ => .fails yields_unreadable yields_unreadable

theorem steady_scalar {value? : String → Option Value} : Steady w (scalar t value?) := by
  unfold scalar
  refine .next .offset fun start => .next (.word overlooked_isLiteralChar) fun letters => ?_
  dsimp only
  split
  · exact .pure
  · exact steady_unreadable

/-- A text in double quotes ends at the same place of both spellings, since these are one spelling. -/
theorem steady_text : Steady w text := by
  unfold text
  refine .next .offset fun start => ?_
  intro bound c c' h
  have heat := h.eat '"' (by decide)
  by_cases hspelled : w.char '\n' = ';'
  · have hquote : (c.eat '"').1 = false := by
      unfold Cursor.eat
      rw [if_neg]
      intro hpeek
      exact h.unquoted hspelled (List.mem_of_mem_head? hpeek)
    refine .stepped ?_
    rw [heat.1, hquote]
    refine .next (.word overlooked_isLiteralChar) heat.2 fun letters e e' _ he => ?_
    split
    · exact .pure rfl he
    · exact .fails yields_unreadable yields_unreadable
  · refine .next (.eat (by decide)) h fun quoted e e' _ he => ?_
    refine .ite Iff.rfl (fun _ => .got ?_) fun _ => ?_
    · have hrest : e'.rest = e.rest := he.rest.trans (w.map_eq_self hspelled e.rest)
      rw [hrest]
      cases hsplit : unquote? e.rest with
      | none => exact .fails (.next fun _ => yields_unreadable) (.next fun _ => yields_unreadable)
      | some parts =>
        obtain ⟨s, rest⟩ := parts
        obtain ⟨passed, hpassed⟩ := append_of_unquote? hsplit
        have hsize : size e.rest - size rest = size passed := by
          rw [hpassed, Text.size_append, Nat.add_sub_cancel]
        have hbehind := he.advance passed hpassed
        rw [w.map_eq_self hspelled] at hbehind
        dsimp only
        rw [hsize]
        exact .set (.pure rfl hbehind)
    · refine .next (.word overlooked_isLiteralChar) he fun letters f f' _ hf => ?_
      split
      · exact .pure rfl hf
      · exact .fails yields_unreadable yields_unreadable

theorem steady_round {item : Reading Value} {rest : List Value → Reading (List Value)} (hitem : Steady w item)
    (hrest : ∀ read, Steady w (rest read)) (read : List Value) : Steady w (round t item rest read) := by
  unfold round
  refine .next .skipSpace fun _ => .next (.eat (by decide)) fun closed => .ite .pure ?_
  refine .next hitem fun v => .next .skipSpace fun _ => .next (.eat (by decide)) fun comma =>
    .ite (hrest _) ?_
  refine .next (.eat (by decide)) fun closed => .ite .pure fun _ _ _ _ => ?_
  exact .fails (.next fun _ => .next fun _ => .refuse) (.next fun _ => .next fun _ => .refuse)

theorem steady_allItems {item : Reading Value} (hitem : Steady w item) (read : List Value) :
    Steady w (allItems t item read) := by
  refine .next (.looked fun _ _ _ h => h.length_rest) fun left => ?_
  generalize left + 1 = n
  induction n generalizing read with
  | zero => exact .failure
  | succ n ih => exact steady_round hitem ih read

/-- A list is cut off both texts and read in itself. -/
theorem steady_list {item : Reading Value} (hitem : Steady w item) : Steady w (list t item) := by
  unfold list
  refine .next .offset fun start => ?_
  intro bound c c' h
  refine .got ?_
  have hslice := h.slice?
  revert hslice
  generalize c.slice? '[' ']' = s
  generalize c'.slice? '[' ']' = s'
  intro hslice
  cases hslice with
  | none => exact .fails (.next fun _ => yields_unreadable) (.next fun _ => yields_unreadable)
  | @some s s' hs =>
    obtain ⟨hchild, hafter⟩ := hs
    obtain ⟨child, after⟩ := s
    obtain ⟨child', after'⟩ := s'
    refine .set (.bind (.inChild (steady_allItems hitem [] hchild) hafter) (fun vs vs' e e' _ hvs he => ?_)
      fun vs e _ _ hvs => hvs.elim)
    subst hvs
    exact .pure rfl he

theorem steady_bareWord : Steady w bareWord := by
  refine .next .offset fun start => .next (.word overlooked_isLiteralChar) fun letters => ?_
  split
  · exact .pure
  · exact steady_unreadable

theorem steady_form {literals : ValueType → Reading Value} (h : ∀ t, Steady w (literals t)) (t : ValueType) :
    Steady w (form literals t) := by
  unfold form
  refine .next .skipSpace fun _ => ?_
  cases t with
  | void => exact .next .offset fun _ => steady_unreadable
  | int => exact steady_scalar
  | float => exact steady_scalar
  | bool => exact steady_scalar
  | string => exact steady_text
  | list element => exact steady_list (h element)
  | any =>
    intro bound c c' halike
    have hbracket : c'.peek = some '[' ↔ c.peek = some '[' := halike.peek_eq_iff (by decide)
    have hquote : c'.peek = some '"' ↔ c.peek = some '"' := halike.peek_eq_iff (by decide)
    refine .looked ?_
    split
    · rename_i hpeek
      rw [hbracket.mpr hpeek]
      exact steady_list (h .any) halike
    · rename_i hpeek
      rw [hquote.mpr hpeek]
      exact steady_text halike
    · rename_i hno hno'
      split
      · rename_i hpeek
        exact absurd (hbracket.mp hpeek) hno
      · rename_i hpeek
        exact absurd (hquote.mp hpeek) hno'
      · exact steady_bareWord halike

theorem steady_nested (depth : Nat) (t : ValueType) : Steady w (nested depth t) := by
  induction depth generalizing t with
  | zero => exact .failure
  | succ depth ih => exact steady_form ih t

end Literal

namespace Reading

theorem steady_literal (t : ValueType) : Steady w (literal t) :=
  .next (.looked fun _ _ _ h => h.length_rest) fun _ => Literal.steady_nested _ t

/-! ### Types and names -/

theorem steady_spanFrom (start : Nat) : Steady w (spanFrom start) := .next .offset fun _ => .pure

theorem steady_refuseEnd {α : Type} : Steady w (refuseEnd : Reading α) :=
  fun _ _ _ _ => .fails yields_refuseEnd yields_refuseEnd

theorem steady_typeArgument (command : String) : Steady w (typeArgument command) := by
  unfold typeArgument
  refine .next .skipSpace fun _ => .next .offset fun start => .next (.word overlooked_isTypeChar) fun letters => ?_
  cases letters with
  | none =>
    refine .next .atEnd fun ended => ?_
    extract_lets refused
    exact .ite (.next (.offer _) fun _ => .refuse) .refuse
  | some letters =>
    refine .next .atEnd fun ended => ?_
    extract_lets behind
    have hbehind : ∀ u, Steady w (behind u) := by
      intro u
      dsimp only [behind]
      split
      · exact .pure
      · exact .next (steady_spanFrom _) fun _ => .refuse
    exact .ite (.next (.offer _) hbehind) (hbehind ())

theorem steady_typeArguments (command : String) (n : Nat) : Steady w (typeArguments command n) := by
  induction n with
  | zero => exact .pure
  | succ n ih => exact .next (steady_typeArgument command) fun _ => .next ih fun _ => .pure

theorem steady_variableName (wanted : Option ValueType) : Steady w (variableName wanted) := by
  unfold variableName
  refine .next .skipSpace fun _ => .next .offset fun start => .next (.eat (by decide)) fun dollar =>
    .ite ?_ fun _ _ _ _ => .fails (.next fun _ => .refuse) (.next fun _ => .refuse)
  refine .next (.upcoming overlooked_isVariableChar) fun letters =>
    .next (.skip overlooked_isVariableChar) fun _ => .next .atEnd fun ended => ?_
  extract_lets behind
  have hbehind : ∀ u, Steady w (behind u) := fun u =>
    .ite (.next .atEnd fun _ => .ite steady_refuseEnd (.next .offset fun _ => .refuse)) .pure
  exact .ite (.next (.looked fun _ _ _ h => h.known) fun _ => .next (.offer _) hbehind) (hbehind ())

end Reading

end KeyConsole.Console
