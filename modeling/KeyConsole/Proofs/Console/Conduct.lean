import KeyConsole.Console.Builtin
import KeyConsole.Proofs.Console.Resolution
import KeyConsole.Proofs.Console.RunInduction

/-!
# Proofs.Console.Conduct: what the built-in commands do with their arguments

A call of a built-in command is put together from its arguments, from results and failures of its own, and, for a few
commands, from lines written and variables read and set.  So a property of computations that holds for these and
carries over to sequences holds for the call if it holds for its arguments.  One such property is to keep a condition
on states that a line and a variable keep.
-/

namespace KeyConsole.Console

open Eval

variable {K : (α : Type) → Eval α → Prop} {c : Call} {i : Nat}

/-- The property holds for results and for failures with a message, and carries over to sequences. -/
structure Closed (K : (α : Type) → Eval α → Prop) : Prop where
  pure : ∀ {α : Type} (a : α), K α (pure a)
  raise : ∀ {α : Type} (message : String), K α (Call.raise message)
  bind : ∀ {α β : Type} {x : Eval α} {k : α → Eval β}, K α x → (∀ a, K β (k a)) → K β (x >>= k)

/-- The property holds for writing lines and for setting and reading variables. -/
structure Contextual (K : (α : Type) → Eval α → Prop) : Prop where
  writeLine : ∀ line, K Unit (Call.writeLine line)
  setVariable : ∀ name v, K Unit (Call.setVariable name v)
  readVariable : ∀ name t, K Value (Call.readVariable name t)

/-- The argument has the property however it is used. -/
def BoundArgument.Within (K : (α : Type) → Eval α → Prop) : BoundArgument → Prop
  | .value get => K Value get
  | .block run => ∀ input, K Value (run input)
  | .variable _ => True

/-- All arguments of the call have the property. -/
def Call.Within (K : (α : Type) → Eval α → Prop) (c : Call) : Prop := ∀ a ∈ c.arguments, a.Within K

/-- The implementation has the property where its arguments have it. -/
def Signature.Carries (K : (α : Type) → Eval α → Prop) (s : Signature) : Prop :=
  ∀ c : Call, c.Within K → K Value (s.run c)

/-- Every signature of the command has the property where its arguments have it. -/
def Command.Carries (K : (α : Type) → Eval α → Prop) (c : Command) : Prop := ∀ s ∈ c.signatures, s.Carries K

/-! ### Rules -/

namespace Closed

variable (h : Closed K)

include h

theorem forM {α : Type} {f : α → Eval PUnit} (hf : ∀ a, K PUnit (f a)) (xs : List α) : K PUnit (xs.forM f) := by
  induction xs with
  | nil => exact h.pure _
  | cons x xs ih => exact h.bind (hf x) fun _ => ih

theorem typeArgument : K ValueType (c.typeArgument i) := by
  unfold Call.typeArgument
  split
  · exact h.pure _
  · exact h.raise _

variable (hc : c.Within K)

include hc

theorem argument {α : Type} {k : BoundArgument → Eval α} (hk : ∀ a, a.Within K → K α (k a)) :
    K α (c.argument i >>= k) := by
  unfold Call.argument
  split
  · rename_i a ha
    exact hk a (hc a (List.mem_of_getElem? ha))
  · exact h.raise _

theorem value : K Value (c.value i) := by
  refine h.argument hc fun a ha => ?_
  split
  · exact ha
  · exact h.raise _

theorem int : K Int64 (c.int i) := by
  refine h.bind (h.value hc) fun v => ?_
  split
  · exact h.pure _
  · exact h.raise _

theorem float : K Float (c.float i) := by
  refine h.bind (h.value hc) fun v => ?_
  split
  · exact h.pure _
  · exact h.raise _

theorem string : K String (c.string i) := by
  refine h.bind (h.value hc) fun v => ?_
  split
  · exact h.pure _
  · exact h.raise _

theorem variableName : K String (c.variableName i) := by
  refine h.argument hc fun a _ => ?_
  split
  · exact h.pure _
  · exact h.raise _

theorem runBlock (input : Option Value) : K Value (c.runBlock i input) := by
  refine h.argument hc fun a ha => ?_
  split
  · exact ha input
  · exact h.raise _

end Closed

namespace Builtin

variable (h : Closed K)

include h

/-! ### Piped values and results -/

theorem closed_pipedInt : K Int64 (pipedInt c) := by
  unfold pipedInt
  split
  · exact h.pure _
  · exact h.raise _

theorem closed_pipedFloat : K Float (pipedFloat c) := by
  unfold pipedFloat
  split
  · exact h.pure _
  · exact h.raise _

theorem closed_pipedList : K (List Value) (pipedList c) := by
  unfold pipedList
  split
  · exact h.pure _
  · exact h.raise _

theorem closed_orRaise {α : Type} {result : Option α} {message : String} : K α (orRaise result message) := by
  unfold orRaise
  split
  · exact h.pure _
  · exact h.raise _

theorem closed_intOrRaise {result : Option Int64} {message : String} :
    K Value (do return Value.int (← orRaise result message)) :=
  h.bind (closed_orRaise h) fun _ => h.pure _

theorem closed_sumInts (items : List Value) (total : Int64) : K Int64 (sumInts items total) := by
  induction items generalizing total with
  | nil => exact h.pure _
  | cons v rest ih =>
    cases v with
    | int n => exact h.bind (closed_orRaise h) fun total => ih total
    | _ => exact h.raise _

theorem closed_mapItems {run : Value → Eval Value} (hrun : ∀ v, K Value (run v)) (items done : List Value) :
    K (List Value) (mapItems run items done) := by
  induction items generalizing done with
  | nil => exact h.pure _
  | cons v rest ih => exact h.bind (hrun v) fun w => ih _

theorem closed_keepItems {run : Value → Eval Value} (hrun : ∀ v, K Value (run v)) (wanted : Bool)
    (items done : List Value) : K (List Value) (keepItems run wanted items done) := by
  induction items generalizing done with
  | nil => exact h.pure _
  | cons v rest ih => exact h.bind (hrun v) fun w => ih _

/-! ### Commands -/

theorem carries_literalCommand {name description : String} {t : ValueType} :
    (literalCommand name t description).Carries K :=
  List.forall_mem_singleton.mpr fun _ hc => h.bind (h.value hc) fun _ =>
    iteInduction (fun _ => h.pure _) fun _ => h.raise _

theorem carries_arithmetic {name description : String} {onInts : Int64 → Int64 → Option Int64}
    {onFloats : Float → Float → Float} : (arithmetic name description onInts onFloats).Carries K := by
  refine List.forall_mem_cons.mpr ⟨fun c hc => ?_, List.forall_mem_singleton.mpr fun c hc => ?_⟩
  · refine h.bind (closed_pipedInt h) fun x => h.bind (h.int hc) fun y => ?_
    exact h.bind (closed_orRaise h) fun z => h.pure _
  · exact h.bind (closed_pipedFloat h) fun x => h.bind (h.float hc) fun y => h.pure _

theorem carries_onInt {subcommand : Option String} {t : ValueType} {f : Int64 → Eval Value}
    (hf : ∀ n, K Value (f n)) : (onInt subcommand t f).Carries K :=
  fun _ _ => h.bind (closed_pipedInt h) hf

theorem carries_onFloat {subcommand : Option String} {t : ValueType} {f : Float → Eval Value}
    (hf : ∀ x, K Value (f x)) : (onFloat subcommand t f).Carries K :=
  fun _ _ => h.bind (closed_pipedFloat h) hf

theorem carries_literals : ∀ c ∈ literals, c.Carries K := by
  unfold literals
  simp only [List.forall_mem_cons, List.not_mem_nil, false_implies, implies_true, and_true]
  exact ⟨carries_literalCommand h, carries_literalCommand h, carries_literalCommand h, carries_literalCommand h⟩

theorem carries_numbers : ∀ c ∈ numbers, c.Carries K := by
  unfold numbers
  simp only [List.forall_mem_cons, List.not_mem_nil, false_implies, implies_true, and_true]
  refine ⟨carries_arithmetic h, carries_arithmetic h, carries_arithmetic h, carries_arithmetic h,
    carries_arithmetic h, ?even, ?math⟩
  case even => exact List.forall_mem_singleton.mpr fun c hc => h.bind (closed_pipedInt h) fun x => h.pure _
  case math =>
    unfold Command.Carries
    simp only [List.forall_mem_cons, List.not_mem_nil, false_implies, implies_true, and_true]
    exact ⟨carries_onInt h fun n => closed_intOrRaise h, carries_onFloat h fun x => h.pure _,
      carries_onInt h fun n => closed_intOrRaise h, carries_onFloat h fun x => h.pure _⟩

theorem carries_conversions : ∀ c ∈ conversions, c.Carries K := by
  unfold conversions
  simp only [List.forall_mem_cons, List.not_mem_nil, false_implies, implies_true, and_true]
  refine ⟨?tostring, ?tofloat, ?toint⟩
  case tostring => exact List.forall_mem_singleton.mpr fun c hc => h.pure _
  case tofloat =>
    refine List.forall_mem_cons.mpr ⟨carries_onInt h fun n => h.pure _,
      List.forall_mem_singleton.mpr fun c hc => ?_⟩
    dsimp only
    split
    · exact h.pure _
    · exact h.raise _
  case toint =>
    unfold Command.Carries
    simp only [List.forall_mem_cons, List.not_mem_nil, false_implies, implies_true, and_true]
    refine ⟨carries_onFloat h fun x => h.bind (closed_orRaise h) fun n => h.pure _, fun c hc => ?_,
      fun c hc => h.pure _⟩
    dsimp only
    split
    · exact h.pure _
    · exact h.raise _

theorem carries_lists : ∀ c ∈ lists, c.Carries K := by
  unfold lists
  simp only [List.forall_mem_cons, List.not_mem_nil, false_implies, implies_true, and_true]
  refine ⟨?iota, ?sum, ?count, ?take, ?map, ?filter⟩
  case iota =>
    refine List.forall_mem_singleton.mpr (carries_onInt h fun n => ?_)
    exact iteInduction (fun _ => h.raise _) fun _ => iteInduction (fun _ => h.raise _) fun _ => h.pure _
  case sum =>
    refine List.forall_mem_cons.mpr ⟨fun c hc => ?_, List.forall_mem_singleton.mpr fun c hc => ?_⟩
    · exact h.bind (closed_pipedList h) fun items => h.bind (closed_sumInts h items 0) fun n => h.pure _
    · exact h.bind (closed_pipedList h) fun items => h.pure _
  case count =>
    exact List.forall_mem_singleton.mpr fun c hc => h.bind (closed_pipedList h) fun items => closed_intOrRaise h
  case take =>
    refine List.forall_mem_singleton.mpr fun c hc => h.bind (h.int hc) fun n => ?_
    exact h.bind (closed_pipedList h) fun items => h.pure _
  case map =>
    refine List.forall_mem_singleton.mpr fun c hc => h.bind (closed_pipedList h) fun items => ?_
    exact h.bind (closed_mapItems h (fun v => h.runBlock hc (some v)) items []) fun vs => h.pure _
  case filter =>
    refine List.forall_mem_singleton.mpr fun c hc => h.bind (closed_pipedList h) fun items => ?_
    exact h.bind (closed_keepItems h (fun v => h.runBlock hc (some v)) _ items []) fun vs => h.pure _

/-- The commands that use variables or write lines. -/
def contextual : List String := ["=>", "var", "val", "echo", "help"]

theorem carries_storage (hcontext : Contextual K) : ∀ c ∈ storage, c.Carries K := by
  unfold storage
  simp only [List.forall_mem_cons, List.not_mem_nil, false_implies, implies_true, and_true]
  refine ⟨?assign, ?var, ?val⟩
  case assign =>
    refine List.forall_mem_singleton.mpr fun c hc => h.bind (h.variableName hc) fun name => ?_
    exact h.bind (hcontext.setVariable name c.piped) fun _ => h.pure _
  case var =>
    refine List.forall_mem_singleton.mpr fun c hc => h.bind (h.variableName hc) fun name => ?_
    exact hcontext.readVariable name .any
  case val =>
    refine List.forall_mem_singleton.mpr fun c hc => h.bind h.typeArgument fun t => ?_
    exact h.bind (h.variableName hc) fun name => hcontext.readVariable name t

theorem carries_others : ∀ c ∈ others, (c.name ∈ contextual → Contextual K) → c.Carries K := by
  unfold others
  simp only [List.forall_mem_cons, List.not_mem_nil, false_implies, implies_true, and_true]
  refine ⟨fun hcontext => ?echo, fun _ => ?types, fun hcontext => ?help⟩
  case echo =>
    refine List.forall_mem_singleton.mpr fun c hc => h.bind (h.string hc) fun line => ?_
    exact h.bind ((hcontext (by decide)).writeLine line) fun _ => h.pure _
  case types => exact List.forall_mem_singleton.mpr fun c hc => h.pure _
  case help =>
    refine List.forall_mem_singleton.mpr fun c hc => ?_
    exact h.bind (h.forM (hcontext (by decide)).writeLine c.listing) fun _ => h.pure _

/-- The built-in commands carry a property over from their arguments; those that use variables or write lines, if it
holds for this too. -/
theorem carries_commands {c : Command} (hc : c ∈ commands) (hcontext : c.name ∈ contextual → Contextual K) :
    c.Carries K := by
  simp only [commands, List.mem_append] at hc
  rcases hc with ((((hc | hc) | hc) | hc) | hc) | hc
  · exact carries_literals h c hc
  · exact carries_numbers h c hc
  · exact carries_lists h c hc
  · refine carries_storage h (hcontext ?_) c hc
    simp only [storage, List.mem_cons, List.not_mem_nil, or_false] at hc
    rcases hc with rfl | rfl | rfl <;> decide
  · exact carries_conversions h c hc
  · exact carries_others h c hc hcontext

end Builtin

/-! ### Steps -/

/-- The argument is the value of a variable. -/
def Argument.isRead : Argument → Bool
  | .read _ _ => true
  | _ => false

/-- The step uses a variable or writes a line. -/
def Step.UsesContext (s : Step) : Prop := s.name ∈ Builtin.contextual ∨ ∃ a ∈ s.arguments, a.isRead

instance : DecidablePred Step.UsesContext := fun _ => inferInstanceAs (Decidable (_ ∨ _))

variable {d : Directory} {listing : List String}

/-- The commands of the directory carry properties over from their arguments, as the built-in commands do. -/
def Directory.Conducts (d : Directory) : Prop :=
  ∀ name c, d.get? name = some c → ∀ K, Closed K → (name ∈ Builtin.contextual → Contextual K) → c.Carries K

theorem conducts_builtin {newlineEnds : Bool} : (Directory.builtinWith newlineEnds).Conducts := by
  intro name c hc K hclosed hcontext
  obtain ⟨hmem, rfl⟩ := Directory.get?_builtin hc
  exact Builtin.carries_commands hclosed hmem hcontext

/-- Bound arguments have a property if the blocks among them have it; if a variable is read, it holds for this too. -/
theorem Closed.within_bindAll (h : Closed K) {arguments : List Argument}
    (hreads : ∀ a ∈ arguments, a.isRead → Contextual K)
    (hblocks : ∀ a ∈ arguments, ∀ p ∈ a.pipeline?, ∀ input, K Value (Run.asBlock (p.runNested listing input))) :
    ∀ b ∈ bindAll listing arguments, b.Within K := by
  rw [bindAll_eq_map]
  refine List.forall_mem_map.mpr fun a ha => ?_
  cases a with
  | literal v => exact h.pure v
  | read name t => exact (hreads _ ha rfl).readVariable name t
  | valueBlock p => exact hblocks _ ha p rfl none
  | block p => exact fun input => hblocks _ ha p rfl input
  | «variable» name => trivial

/-- The call of a typed step has a property if the blocks of the step have it. -/
theorem Directory.Conducts.call (hd : d.Conducts) {s : Step} (hs : s.Typed d) (h : Closed K)
    (hcontext : s.UsesContext → Contextual K)
    (hblocks : ∀ a ∈ s.arguments, ∀ p ∈ a.pipeline?, ∀ input, K Value (Run.asBlock (p.runNested listing input)))
    (v : Value) : K Value (s.signature.run (s.call listing v)) := by
  have hbound := h.within_bindAll (fun a ha hread => hcontext (.inr ⟨a, ha, hread⟩)) hblocks
  obtain ⟨name, subcommand, inverted, piped, types, arguments, signature, returns, span⟩ := s
  obtain ⟨-, c, variableTypes, hc, hsignature, -⟩ := hs
  exact hd name c hc K h (fun hname => hcontext (.inl hname)) signature (Command.resolve?_spec hsignature).1 _ hbound

/-! ### Conditions on states -/

variable {I : Running → Prop} {E : Failure → Running → Prop}

/-- The command has failed of itself, with a fault that it does not place. -/
def Failure.IsOwn : Failure → Prop
  | reported => False
  | fault f => f.source = none ∧ f.span = none
  | raised .. | panicked _ => True

/-- The condition `I` holds on when a line is written or a variable is set, and every failure of a command
itself, where `I` holds, is an `E`. -/
structure Governs (I : Running → Prop) (E : Failure → Running → Prop) : Prop where
  wrote : ∀ r line, I r →
    I { r with session := r.session.writeLine line, journal := .wrote line :: r.journal }
  stored : ∀ r name v, I r →
    I { r with session := r.session.setVariable name v, journal := .stored name v :: r.journal }
  fails : ∀ f r, f.IsOwn → I r → E f r

namespace Governs

variable (h : Governs I E)

include h

theorem closed : Closed fun _ x => x.Keeps I E fun _ => True where
  pure _ := Keeps.pure trivial
  raise _ := Keeps.throw fun r hr => h.fails _ r trivial hr
  bind hx hk := Keeps.bind hx fun a _ => hk a

theorem cause {α : Type} {cause : Cause} {P : α → Prop} : Eval.Keeps I E (throw (.fault { cause })) P :=
  Keeps.throw fun r hr => h.fails _ r ⟨rfl, rfl⟩ hr

theorem contextual : Contextual fun _ x => x.Keeps I E fun _ => True where
  writeLine line := Keeps.update fun r hr => h.wrote r line hr
  setVariable name v := Keeps.update fun r hr => h.stored r name v hr
  readVariable name t := by
    unfold Call.readVariable
    refine Keeps.bind Keeps.get fun r _ => ?_
    split
    · exact h.cause
    · exact Brings.ite (fun _ => Keeps.pure trivial) fun _ => h.cause

end Governs

/-- The call of a typed step keeps what the blocks of the step keep. -/
theorem Directory.Conducts.keeps_call (hd : d.Conducts) {s : Step} (hs : s.Typed d) (h : Governs I E)
    (hblocks : ∀ a ∈ s.arguments, ∀ p ∈ a.pipeline?, ∀ input,
      (Run.asBlock (p.runNested listing input)).Keeps I E fun _ => True) (v : Value) :
    (s.signature.run (s.call listing v)).Keeps I E fun _ => True :=
  hd.call hs h.closed (fun _ => h.contextual) hblocks v

end KeyConsole.Console
