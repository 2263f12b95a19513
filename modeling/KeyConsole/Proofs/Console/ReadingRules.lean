import KeyConsole.Console.Pipeline.Reading

/-!
# Proofs.Console.ReadingRules: what a successful reading yields

`x.Yields Q` says that `Q` holds of whatever the reading `x` yields, from any cursor.  A reading that fails
yields nothing.
-/

namespace KeyConsole.Console

/-- A test that what was read passes. -/
theorem exists_ok_of_any {ε α : Type} {outcome : Except ε α} {test : α → Bool}
    (h : outcome.toOption.any test = true) : ∃ a, outcome = .ok a ∧ test a = true := by
  cases outcome with
  | error e => cases h
  | ok a => exact ⟨a, rfl, h⟩

namespace Reading

variable {α β : Type} {P : α → Prop} {Q : β → Prop} {x : Reading α} {k : α → Reading β}

/-! ### One reading after the other -/

theorem run_bind (c : Cursor) :
    (x >>= k).run.run c
      = (match (x.run.run c).1 with
          | some a => (k a).run
          | none => Pure.pure none : StateM Cursor (Option β)).run (x.run.run c).2 := rfl

theorem run_bind_some {c : Cursor} {a : α} (h : (x.run.run c).1 = some a) :
    (x >>= k).run.run c = (k a).run.run (x.run.run c).2 := by
  rw [run_bind, h]

theorem run_bind_none {c : Cursor} (h : (x.run.run c).1 = none) :
    (x >>= k).run.run c = (none, (x.run.run c).2) := by
  rw [run_bind, h]
  rfl

theorem run_look {f : Cursor → α} {c : Cursor} : (Reading.look f >>= k).run.run c = (k (f c)).run.run c := rfl

theorem run_move {f : Cursor → Cursor} {k : Unit → Reading β} {c : Cursor} :
    (Reading.move f >>= k).run.run c = (k ()).run.run (f c) := rfl

theorem run_step {f : Cursor → α × Cursor} {c : Cursor} :
    (Reading.step f >>= k).run.run c = (k (f c).1).run.run (f c).2 := rfl

/-- A child that fails hands over its fault and its request; the cursor itself does not move. -/
theorem run_inChild (child c : Cursor) :
    (Reading.inChild child x).run.run c =
      match x.run.run child with
      | (some a, _) => (some a, c)
      | (none, e) => (none, c.absorb e) := by
  unfold Reading.inChild
  rcases x.run.run child with ⟨_ | a, e⟩ <;> rfl

/-! ### What is yielded -/

/-- `Q` holds of what the reading yields. -/
def Yields (x : Reading α) (Q : α → Prop) : Prop := ∀ c a, (x.run.run c).1 = some a → Q a

theorem Yields.pure {a : α} (h : P a) : Yields (Pure.pure a) P := by
  intro c b hb
  cases hb
  exact h

theorem Yields.failure : Yields (Alternative.failure : Reading α) P := by
  intro c a ha
  cases ha

theorem Yields.bind (hx : x.Yields P) (hk : ∀ a, P a → (k a).Yields Q) : (x >>= k).Yields Q := by
  intro c b hb
  cases ha : (x.run.run c).1 with
  | none =>
    rw [run_bind_none ha] at hb
    cases hb
  | some a =>
    rw [run_bind_some ha] at hb
    exact hk a (hx c a ha) _ b hb

/-- A first reading about which nothing is known. -/
theorem Yields.next (hk : ∀ a, (k a).Yields Q) : (x >>= k).Yields Q :=
  Yields.bind (P := fun _ => True) (fun _ _ _ => trivial) fun a _ => hk a

theorem Yields.look {f : Cursor → α} (h : ∀ c, P (f c)) : (Reading.look f).Yields P := by
  intro c a ha
  cases ha
  exact h c

theorem Yields.refuse {cause : Cause} {span : Span} : (Reading.refuse cause span : Reading α).Yields P :=
  Yields.next fun _ => Yields.failure

theorem Yields.ite {c : Prop} [Decidable c] {y : Reading α} (hx : c → x.Yields P)
    (hy : ¬c → y.Yields P) : (if c then x else y).Yields P := by
  split
  · rename_i h
    exact hx h
  · rename_i h
    exact hy h

theorem Yields.inChild {child : Cursor} (hx : x.Yields P) : (Reading.inChild child x).Yields P := by
  unfold Reading.inChild
  split
  · rename_i a c ha
    exact Yields.pure (hx child a (by rw [ha]))
  · exact Yields.next fun _ => Yields.failure

/-! ### What is never yielded -/

theorem yields_refuseEnd : (refuseEnd : Reading α).Yields P := Yields.next fun _ => Yields.refuse

theorem yields_refuseCommand {piped : Option ValueType} {start : Nat} :
    (refuseCommand piped start : Reading α).Yields P := by
  unfold refuseCommand
  exact Yields.next fun c => Yields.ite (fun _ => Yields.next fun _ => Yields.refuse) fun _ =>
    Yields.ite (fun _ => Yields.refuse) fun _ => Yields.refuse

/-! ### Heads of commands -/

section

variable {d : Directory} {piped : Option ValueType}

/-- The directory has the command of a head, which resolves to the signature of the head. -/
def Head.Resolved (d : Directory) (piped : Option ValueType) (h : Head) : Prop :=
  ∃ command, d.get? h.name = some command ∧
    command.resolve? h.subcommand piped h.types.length = some h.signature

theorem yields_headSignature {nameStart : Nat} {inverted : Bool} {name : String} {c : Command} {sub : Option String}
    {types : List ValueType} (hc : d.get? name = some c) :
    (headSignature d piped nameStart inverted name c sub types).Yields (Head.Resolved d piped) := by
  unfold headSignature
  cases hresolve : c.resolve? sub piped types.length with
  | none => exact .next fun _ => .refuse
  | some signature => exact .pure ⟨c, hc, hresolve⟩

theorem yields_headBehindName {nameStart : Nat} {inverted : Bool} {name : String} :
    (headBehindName d piped nameStart inverted name).Yields (Head.Resolved d piped) := by
  unfold headBehindName
  cases hc : d.get? name with
  | none =>
    refine .next fun ended => ?_
    split
    · exact .next fun _ => .next fun _ => .refuse
    · exact .next fun _ => .refuse
  | some c =>
    have hbehind : ∀ sub, (headBehindSubcommand d piped nameStart inverted name c sub).Yields
        (Head.Resolved d piped) := fun sub =>
      .next fun ended => .ite (fun _ => .next fun _ => yields_refuseEnd) fun _ =>
        .next fun types => yields_headSignature hc
    dsimp only
    split
    · exact .next hbehind
    · exact .next hbehind

/-- A head that is read has the signature that its command resolves to. -/
theorem yields_commandHead : (commandHead d piped).Yields (Head.Resolved d piped) := by
  unfold commandHead headBehindNot
  refine .next fun _ => .next fun inverted => .next fun _ => .next fun nameStart => .next fun word => ?_
  cases word with
  | none => exact yields_refuseCommand
  | some name => exact yields_headBehindName

end

/-! ### Arguments -/

/-- An argument in front of others comes first among them. -/
theorem Arguments.arguments_cons (p : Parameter) (piped : Option ValueType) (known : Ordered.NameMap ValueType)
    (a : Argument) (rest : Arguments) : (rest.cons p piped known a).arguments = a :: rest.arguments := by
  unfold Arguments.cons
  split <;> rfl

end Reading

theorem Literal.yields_unreadable {α : Type} {P : α → Prop} {start : Nat} {input : String} {t : ValueType} :
    (unreadable start input t : Reading α).Yields P := Reading.Yields.next fun _ => Reading.Yields.refuse

end KeyConsole.Console
