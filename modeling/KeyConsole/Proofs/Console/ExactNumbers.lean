import KeyConsole.Proofs.Console.Resolution
import KeyConsole.Proofs.Console.SoundBuiltins
import KeyConsole.Proofs.Decimal.IntText
import Mathlib.Algebra.Ring.Int.Defs

/-!
# Proofs.Console.ExactNumbers: integer arithmetic is exact or an error

A command on integers answers with the number that mathematics gives, or fails with a message; and it fails just where
that number does not fit in 64 bits, or where there is none.
-/

namespace KeyConsole.Console

open Decimal (Fits fit?)

variable {α β : Type}

/-- From the state `r` the computation comes to the state `s`.  It fails, with a message, just if `fails`, and otherwise
its result is `good`. -/
def Eval.Answers (x : Eval α) (r s : Running) (fails : Prop) (good : α → Prop) : Prop :=
  x.Brings (· = r) (· = s) (fun f r' => r' = s ∧ fails ∧ ∃ message, f = .raised message []) fun a => ¬fails ∧ good a

/-- Evaluated one after the other, the arguments have these values and come from the first state to the second. -/
inductive Supplies : List BoundArgument → List Value → Running → Running → Prop where
  | nil {r : Running} : Supplies [] [] r r
  | cons {get : Eval Value} {v : Value} {rest : List BoundArgument} {vs : List Value} {r s t : Running}
      (hget : get.run.run r = (.ok v, s)) (hrest : Supplies rest vs s t) :
      Supplies (.value get :: rest) (v :: vs) r t

/-- The value is an integer. -/
def Value.IsInt (n : Int) (v : Value) : Prop := ∃ z : Int64, v = .int z ∧ z.toInt = n

/-- The value is a list of integers. -/
def Value.IsInts (ns : List Int) (v : Value) : Prop :=
  ∃ zs : List Int64, v = .list (zs.map .int) ∧ zs.map Int64.toInt = ns

/-- Read for a piped type that may stand where `want` is expected, the built-in command answers every call with these
values, and fails just if `fails`. -/
def Calculates (name : String) (subcommand : Option String) (want : ValueType) (v : Value) (arguments : List Value)
    (fails : Prop) (good : Value → Prop) : Prop :=
  ∀ piped : ValueType, piped.assignable want → ∃ command signature,
    Directory.builtin.get? name = some command ∧ command.resolve? subcommand (some piped) 0 = some signature ∧
      ∀ (call : Call) (r s : Running), call.piped = v → Supplies call.arguments arguments r s →
        (signature.run call).Answers r s fails good

variable {r s t : Running} {fails : Prop} {good : α → Prop} {n : Int}

/-! ### Rules -/

namespace Eval.Answers

variable {x : Eval α} {k : α → Eval β} {good' : β → Prop}

theorem pure {a : α} (hfails : ¬fails) (h : good a) : Answers (Pure.pure a) r r fails good := Brings.pure ⟨hfails, h⟩

theorem raise {message : String} (h : fails) : Answers (Call.raise message) r r fails good :=
  Brings.throw fun _ hr => ⟨hr, h, message, rfl⟩

theorem bind_of_ok {a : α} (hx : x.run.run r = (.ok a, s)) (hk : (k a).Answers s t fails good') :
    (x >>= k).Answers r t fails good' := by
  refine Brings.bind (P := (· = a)) (J := (· = s)) (fun r' hr' => ?_) fun b hb => hb ▸ hk
  subst hr'
  show Demand _ _ _ (x.run.run r').1 (x.run.run r').2
  rw [hx]
  exact ⟨rfl, rfl⟩

theorem map {f : α → β} (hx : x.Answers r s fails good) (h : ∀ a, good a → good' (f a)) :
    Answers (do return f (← x)) r s fails good' :=
  Brings.bind hx fun a ha => Brings.pure ⟨ha.1, h a ha.2⟩

theorem congr {fails' : Prop} {good' : α → Prop} (hx : x.Answers r s fails good) (hfails : fails ↔ fails')
    (h : ∀ a, good a → good' a) : x.Answers r s fails' good' := by
  refine Run.Leads.mono hx fun outcome r' hr' => ?_
  cases outcome with
  | ok a => exact ⟨hr'.1, fun hf => hr'.2.1 (hfails.mpr hf), h a hr'.2.2⟩
  | error f => exact ⟨hr'.1, hfails.mp hr'.2.1, hr'.2.2⟩

end Eval.Answers

open Eval

theorem Supplies.nothing {arguments : List BoundArgument} (h : Supplies arguments [] r s) : s = r := by
  cases h
  rfl

theorem Supplies.one {arguments : List BoundArgument} {v : Value} (h : Supplies arguments [v] r s) :
    ∃ get, arguments[0]? = some (.value get) ∧ get.run.run r = (.ok v, s) := by
  cases h with
  | cons hget hrest =>
    cases hrest
    exact ⟨_, rfl, hget⟩

theorem Supplies.int_run {c : Call} {y : Int64} (h : Supplies c.arguments [.int y] r s) :
    (c.int 0).run.run r = (.ok y, s) := by
  obtain ⟨get, hargument, hget⟩ := h.one
  unfold Call.int
  rw [Call.value_eq hargument, ExceptT.run_bind, StateT.run_bind, hget]
  rfl

/-! ### Exact results -/

namespace Builtin

variable {x y : Int64} {result : Option Int64} {name : String} {want : ValueType} {v : Value} {vs : List Value}
  {command : Command} {goodValue : Value → Prop}

/-- The result is the number, or missing just if `fails`. -/
def Exact (result : Option Int64) (fails : Prop) (n : Int) : Prop :=
  (result = none ↔ fails) ∧ ∀ z, result = some z → z.toInt = n

theorem exact_fit? (n : Int) : Exact (fit? n) (¬Fits n) n := ⟨Decimal.fit?_eq_none, fun _ => Decimal.toInt_of_fit?⟩

theorem exact_div? (x y : Int64) :
    Exact (div? x y) (y.toInt = 0 ∨ ¬Fits (x.toInt.tdiv y.toInt)) (x.toInt.tdiv y.toInt) := by
  unfold div?
  split
  · rename_i hy
    exact ⟨⟨fun _ => Or.inl hy, fun _ => rfl⟩, fun z hz => by cases hz⟩
  · rename_i hy
    obtain ⟨hnone, hsome⟩ := exact_fit? (x.toInt.tdiv y.toInt)
    exact ⟨hnone.trans ⟨Or.inr, fun h => h.resolve_left hy⟩, hsome⟩

theorem exact_larger (x y : Int64) : Exact (some (larger x y)) False (max x.toInt y.toInt) := by
  refine ⟨⟨fun h => (by cases h), False.elim⟩, fun z hz => ?_⟩
  cases hz
  unfold larger
  split <;> omega

theorem Exact.answers {message : String} (h : Exact result fails n) :
    (orRaise result message).Answers r r fails fun z => z.toInt = n := by
  unfold orRaise
  cases hresult : result with
  | none => exact Answers.raise (h.1.mp hresult)
  | some z => exact Answers.pure (fun hf => by rw [h.1.mpr hf] at hresult; cases hresult) (h.2 z hresult)

theorem Exact.answers_int {message : String} (h : Exact result fails n) :
    Answers (do return Value.int (← orRaise result message)) r r fails (Value.IsInt n) :=
  h.answers.map fun z hz => ⟨z, rfl, hz⟩

/-! ### Commands on integers -/

theorem calculates_arithmetic {description : String} {onInts : Int64 → Int64 → Option Int64}
    {onFloats : Float → Float → Float}
    (hget : Directory.builtin.get? name = some (arithmetic name description onInts onFloats))
    (h : Exact (onInts x y) fails n) : Calculates name none .int (.int x) [.int y] fails (Value.IsInt n) := by
  intro piped hpiped
  obtain rfl := ValueType.eq_of_assignable hpiped (fun _ h => by cases h) fun h => by cases h
  refine ⟨_, _, hget, rfl, fun call r s hv hsupplies => ?_⟩
  show Answers (do let x ← pipedInt call; _) r s fails _
  rw [pipedInt_eq hv, pure_bind]
  exact Answers.bind_of_ok hsupplies.int_run h.answers_int

theorem calculates_onInt {subcommand : Option String} {f : Int64 → Eval Value}
    (hget : Directory.builtin.get? name = some command)
    (hresolve : command.resolve? subcommand (some .int) 0 = some (onInt subcommand want f))
    (h : ∀ r, (f x).Answers r r fails goodValue) :
    Calculates name subcommand .int (.int x) [] fails goodValue := by
  intro piped hpiped
  obtain rfl := ValueType.eq_of_assignable hpiped (fun _ h => by cases h) fun h => by cases h
  refine ⟨_, _, hget, hresolve, fun call r s hv hsupplies => ?_⟩
  obtain rfl := hsupplies.nothing
  show Answers (do f (← pipedInt call)) s s fails _
  rw [pipedInt_eq hv, pure_bind]
  exact h s

/-- The numbers that counting makes are those up to its end. -/
theorem isInts_countingUp {n : Nat} (h : n ≤ longestCount) :
    Value.IsInts ((List.range' 1 n).map Nat.cast) (.list (countingUp n)) := by
  refine ⟨(List.range' 1 n).map Int64.ofNat, by simp [countingUp], ?_⟩
  rw [List.map_map]
  refine List.map_congr_left fun k hk => Int64.toInt_ofNat_of_lt ?_
  have hle := (List.mem_range'_1.mp hk).2
  unfold longestCount at h
  omega

theorem calculates_iota (x : Int64) :
    Calculates "iota" none .int (.int x) [] (¬(0 ≤ x.toInt ∧ x.toInt ≤ 1000000))
      (Value.IsInts ((List.range' 1 x.toInt.toNat).map Nat.cast)) := by
  refine calculates_onInt rfl rfl fun r => ?_
  split
  · exact Answers.raise (by omega)
  · split
    · rename_i hbig
      unfold longestCount at hbig
      exact Answers.raise (by omega)
    · rename_i hbig
      have hle : x.toInt.toNat ≤ longestCount := by omega
      exact Answers.pure (by unfold longestCount at hle; omega) (isInts_countingUp hle)

/-! ### Commands on lists -/

/-- Adding up fails at the first total that does not fit. -/
theorem answers_sumInts (zs : List Int64) (total : Int64) :
    (sumInts (zs.map .int) total).Answers r r
      (∃ front, front <+: zs ∧ ¬Fits (total.toInt + (front.map Int64.toInt).sum))
      fun z => z.toInt = total.toInt + (zs.map Int64.toInt).sum := by
  induction zs generalizing total with
  | nil =>
    refine Answers.pure ?_ (by simp)
    rintro ⟨front, hfront, hfits⟩
    obtain rfl := List.prefix_nil.mp hfront
    exact hfits (by simpa using Decimal.fits_toInt total)
  | cons z rest ih =>
    obtain ⟨hnone, hsome⟩ := exact_fit? (total.toInt + z.toInt)
    rw [List.map_cons, sumInts]
    cases hadd : add? total z with
    | none =>
      exact Answers.raise ⟨[z], List.cons_prefix_cons.mpr ⟨rfl, List.nil_prefix⟩, by simpa using hnone.mp hadd⟩
    | some next =>
      -- the totals behind the first number are those of the rest, begun with what there is then
      have htotal : ∀ front : List Int64, next.toInt + (front.map Int64.toInt).sum =
          total.toInt + ((z :: front).map Int64.toInt).sum := by
        intro front
        rw [hsome next hadd, List.map_cons, List.sum_cons, Int.add_assoc]
      refine (ih next).congr ⟨?_, ?_⟩ fun sum hsum => hsum.trans (htotal rest)
      · rintro ⟨front, hfront, hfits⟩
        exact ⟨z :: front, List.cons_prefix_cons.mpr ⟨rfl, hfront⟩, htotal front ▸ hfits⟩
      · rintro ⟨front, hfront, hfits⟩
        rcases List.prefix_cons_iff.mp hfront with rfl | ⟨front, rfl, hrest⟩
        · exact absurd (by simpa using Decimal.fits_toInt total) hfits
        · exact ⟨front, hrest, htotal front ▸ hfits⟩

/-- A command on lists answers as what it does with the items. -/
theorem answers_onList {call : Call} {items : List Value} {k : List Value → Eval Value} (hv : call.piped = .list items)
    (hk : (k items).Answers r s fails goodValue) : (do k (← pipedList call)).Answers r s fails goodValue := by
  rw [pipedList_eq hv, pure_bind]
  exact hk

theorem calculates_sum (zs : List Int64) :
    Calculates "sum" none (.list .int) (.list (zs.map .int)) []
      (∃ front, front <+: zs ∧ ¬Fits (front.map Int64.toInt).sum) (Value.IsInt (zs.map Int64.toInt).sum) := by
  intro piped hpiped
  obtain ⟨u, rfl, hu⟩ := ValueType.list_of_assignable hpiped
  obtain rfl := ValueType.eq_of_assignable hu (fun _ h => by cases h) fun h => by cases h
  refine ⟨_, _, rfl, rfl, fun call r s hv hsupplies => ?_⟩
  obtain rfl := hsupplies.nothing
  have hzero : (0 : Int64).toInt = 0 := rfl
  have hsum := answers_sumInts (r := s) zs 0
  simp only [hzero, Int.zero_add] at hsum
  exact answers_onList hv (hsum.map fun z hz => ⟨z, rfl, hz⟩)

theorem calculates_count (items : List Value) :
    Calculates "count" none (.list .any) (.list items) [] (¬Fits items.length) (Value.IsInt items.length) := by
  intro piped hpiped
  refine ⟨_, _, rfl, Command.resolve?_of_singleton rfl rfl rfl (Signature.accepts_some_iff.mpr ⟨_, rfl, hpiped⟩),
    fun call r s hv hsupplies => ?_⟩
  obtain rfl := hsupplies.nothing
  exact answers_onList hv (exact_fit? _).answers_int

theorem calculates_take (items : List Value) (n : Int64) :
    Calculates "take" none (.list .any) (.list items) [.int n] False
      (· = .list (items.take (max n.toInt 0).toNat)) := by
  intro piped hpiped
  refine ⟨_, _, rfl, Command.resolve?_of_singleton rfl rfl rfl (Signature.accepts_some_iff.mpr ⟨_, rfl, hpiped⟩),
    fun call r s hv hsupplies => ?_⟩
  have hmax : n.toInt.toNat = (max n.toInt 0).toNat := by omega
  refine Answers.bind_of_ok hsupplies.int_run (answers_onList hv ?_)
  exact Answers.pure not_false (by rw [hmax])

end Builtin

open Builtin

/-- Integer arithmetic is exact or an error.  Read for a piped type that their integer signatures take, and called with
values of the right types, the commands on integers answer with the exact result; the quotient is the one toward zero,
counting goes from 1 up to the piped number, and taking keeps that many items from the front.  They fail, with a
message, just if the exact result does not fit in 64 bits, if the divisor is zero, if the number to count to is negative
or above a million, or if the total of some first items of a list to add up does not fit. -/
theorem integer_arithmetic_is_exact :
    (∀ x y : Int64,
      Calculates "+" none .int (.int x) [.int y] (¬Fits (x.toInt + y.toInt)) (Value.IsInt (x.toInt + y.toInt)) ∧
      Calculates "-" none .int (.int x) [.int y] (¬Fits (x.toInt - y.toInt)) (Value.IsInt (x.toInt - y.toInt)) ∧
      Calculates "*" none .int (.int x) [.int y] (¬Fits (x.toInt * y.toInt)) (Value.IsInt (x.toInt * y.toInt)) ∧
      Calculates "/" none .int (.int x) [.int y] (y.toInt = 0 ∨ ¬Fits (x.toInt.tdiv y.toInt))
        (Value.IsInt (x.toInt.tdiv y.toInt)) ∧
      Calculates "max" none .int (.int x) [.int y] False (Value.IsInt (max x.toInt y.toInt))) ∧
    (∀ x : Int64,
      Calculates "math" (some "neg") .int (.int x) [] (¬Fits (-x.toInt)) (Value.IsInt (-x.toInt)) ∧
      Calculates "math" (some "abs") .int (.int x) [] (¬Fits x.toInt.natAbs) (Value.IsInt x.toInt.natAbs) ∧
      Calculates "iota" none .int (.int x) [] (¬(0 ≤ x.toInt ∧ x.toInt ≤ 1000000))
        (Value.IsInts ((List.range' 1 x.toInt.toNat).map Nat.cast))) ∧
    (∀ items : List Value,
      Calculates "count" none (.list .any) (.list items) [] (¬Fits items.length) (Value.IsInt items.length)) ∧
    (∀ (items : List Value) (n : Int64),
      Calculates "take" none (.list .any) (.list items) [.int n] False
        (· = .list (items.take (max n.toInt 0).toNat))) ∧
    ∀ zs : List Int64,
      Calculates "sum" none (.list .int) (.list (zs.map .int)) []
        (∃ front, front <+: zs ∧ ¬Fits (front.map Int64.toInt).sum) (Value.IsInt (zs.map Int64.toInt).sum) := by
  refine ⟨fun x y => ⟨calculates_arithmetic rfl (exact_fit? _), calculates_arithmetic rfl (exact_fit? _),
    calculates_arithmetic rfl (exact_fit? _), calculates_arithmetic rfl (exact_div? x y),
    calculates_arithmetic rfl (exact_larger x y)⟩, fun x => ⟨?neg, ?abs, calculates_iota x⟩, calculates_count,
    calculates_take, calculates_sum⟩
  case neg => exact calculates_onInt rfl rfl fun r => (exact_fit? _).answers_int
  case abs => exact calculates_onInt rfl rfl fun r => (exact_fit? _).answers_int

/-- The least number by minus one is no number of 64 bits. -/
example : div? (Int64.ofInt (-2 ^ 63)) (-1) = none := by decide

end KeyConsole.Console
