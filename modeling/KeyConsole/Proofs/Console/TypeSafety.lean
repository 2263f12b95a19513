import KeyConsole.Console.Builtin
import KeyConsole.Proofs.Console.Admission
import KeyConsole.Proofs.Console.Holdings
import KeyConsole.Proofs.Console.RunRules

/-!
# Proofs.Console.TypeSafety: signatures that keep their promise

A signature is sound if its implementation, given a piped value and arguments as the types promise them,
answers with a value of its return type, and does not complain about a value of a wrong type.  The
complaints are known by how they begin.  What the variables may hold is followed from argument to argument.
-/

namespace KeyConsole.Console

open ValueType (AdmitsPiped)

variable {α β : Type} {M N : Holdings}

/-! ### Complaints about types -/

/-- How the complaints about values and arguments of a wrong type begin. -/
def mismatchOpenings : List String :=
  ["expected ", "not an int", "missing argument ", "missing type argument ", "argument "]

/-- Whether a message complains about a wrong type. -/
def isMismatch (message : String) : Bool :=
  mismatchOpenings.any fun opening => opening.toList.isPrefixOf message.toList

/-- The fault is an exception for a wrong type. -/
def Fault.isMismatch (f : Fault) : Bool :=
  match f.cause with
  | .exception message => Console.isMismatch message
  | _ => false

/-- The failure comes from a wrong type. -/
def Failure.isMismatch : Failure → Bool
  | reported => false
  | fault f => f.isMismatch
  | raised message _ => Console.isMismatch message
  | panicked message => Console.isMismatch message

/-- No message that begins like this complains about a wrong type. -/
def Innocent (opening : String) : Prop := ∀ rest, isMismatch (opening ++ rest) = false

theorem Innocent.append {opening : String} (h : Innocent opening) (s : String) :
    Innocent (opening ++ s) := by
  intro rest
  rw [String.append_assoc]
  exact h _

theorem Innocent.message {opening : String} (h : Innocent opening) : isMismatch opening = false := by
  have hrest := h ""
  rw [String.append_empty] at hrest
  exact hrest

/-- The first character already tells that a message is innocent. -/
theorem innocent_of_head {opening : String} {x : Char} (h : opening.toList.head? = some x)
    (hx : x ∉ ['e', 'n', 'm', 'a']) : Innocent opening := by
  intro rest
  obtain ⟨cs, hcs⟩ := List.head?_eq_some_iff.mp h
  simp only [List.mem_cons, List.not_mem_nil, or_false, not_or] at hx
  simp [isMismatch, mismatchOpenings, String.toList_append, hcs, List.isPrefixOf, Ne.symm hx.1,
    Ne.symm hx.2.1, Ne.symm hx.2.2.1, Ne.symm hx.2.2.2]

/-! ### Clean states -/

/-- No fault comes from a wrong type, and every command that has returned did so with a value of its type. -/
structure Clean (r : Running) : Prop where
  faults : ∀ f ∈ r.session.faults, f.isMismatch = false
  returned : ∀ site v, .returned site v ∈ r.journal → site.returns.Admits v

/-- The state is clean, and every variable holds a value of a type that it may hold. -/
structure Holding (M : Holdings) (r : Running) : Prop extends Clean r where
  held : ∀ name v, r.session.store.get? name = some v → ∃ t ∈ M.types name, t.Admits v

theorem Session.get?_variableTypes (s : Session) (name : String) :
    s.variableTypes.get? name = (s.store.get? name).map Value.type := by
  unfold Session.variableTypes Ordered.NameMap.get?
  rw [List.find?_map, Option.map_map, Option.map_map]
  rfl

/-- In a clean state every variable holds a value of the type that this reports. -/
theorem Clean.holding {r : Running} (hr : Clean r) : Holding (.of r.session.variableTypes) r where
  toClean := hr
  held name v hv := by
    refine ⟨v.type, Option.mem_toList.mpr ?_, ValueType.admits_type v⟩
    rw [Session.get?_variableTypes, hv]
    rfl

theorem Holding.mono {r : Running} (hr : Holding M r) (h : M ≤ N) : Holding N r where
  toClean := hr.toClean
  held name v hv := by
    obtain ⟨t, ht, hadmits⟩ := hr.held name v hv
    exact ⟨t, h name ht, hadmits⟩

/-- The computation keeps the state clean and does not fail for a wrong type; if it does not fail, it takes what the
variables hold from `M` to `N`. -/
abbrev Eval.Safe (M N : Holdings) (x : Eval α) (Q : α → Prop) : Prop :=
  x.Brings (Holding M) (Holding N) (fun f r => f.isMismatch = false ∧ Clean r) Q

/-- The run keeps the state clean; if it has a value, it takes what the variables hold from `M` to `N`. -/
abbrev Run.Safe (M N : Holdings) (run : Run (Option Value)) (Q : Value → Prop) : Prop :=
  Run.Leads (Holding M) run fun v r => v.elim (Clean r) fun w => Holding N r ∧ Q w

/-- What a safe run leaves behind, with a value or without. -/
theorem Run.clean_of_safe {run : Run (Option Value)} {Q : Value → Prop} (h : run.Safe M N Q) {r : Running}
    (hr : Holding M r) : Clean (run.run r).2 ∧ ∀ w ∈ (run.run r).1, Q w := by
  have hend := h r hr
  cases hv : (run.run r).1 with
  | none =>
    rw [hv] at hend
    exact ⟨hend, fun w hw => by cases hw⟩
  | some w =>
    rw [hv] at hend
    refine ⟨hend.1.toClean, fun u hu => ?_⟩
    cases hu
    exact hend.2

theorem Eval.safe_throw {f : Failure} {Q : α → Prop} (h : f.isMismatch = false) : Safe M N (throw f) Q :=
  Brings.throw fun _ hr => ⟨h, hr.toClean⟩

theorem Eval.safe_raise {message : String} {Q : α → Prop} (h : Console.isMismatch message = false) :
    Safe M N (Call.raise message) Q :=
  Eval.safe_throw h

/-- A block that keeps the state clean is safe to use, with a value or without. -/
theorem Eval.safe_asBlock {run : Run (Option Value)} {Q : Value → Prop} (h : run.Safe M N Q) :
    Safe M N (Run.asBlock run) Q := by
  refine Brings.asBlock (Run.Leads.mono h fun v r hr => ?_)
  cases v with
  | none => exact ⟨rfl, hr⟩
  | some w => exact hr

theorem Clean.report {r : Running} (hr : Clean r) {f : Fault} (hf : f.isMismatch = false) :
    Clean { r with session := r.session.report f } := by
  refine ⟨fun g hg => ?_, hr.returned⟩
  rcases List.mem_append.mp hg with hg | hg
  · exact hr.faults g hg
  · rw [List.mem_singleton.mp hg]
    exact hf

theorem Clean.enter {r : Running} (hr : Clean r) {t : Turn}
    (ht : ∀ site v, t = .returned site v → site.returns.Admits v) :
    Clean { r with journal := t :: r.journal } := by
  refine ⟨hr.faults, fun site v h => ?_⟩
  rcases List.mem_cons.mp h with h | h
  · exact ht site v h.symm
  · exact hr.returned site v h

theorem Holding.enter {r : Running} (hr : Holding M r) {t : Turn}
    (ht : ∀ site v, t = .returned site v → site.returns.Admits v) :
    Holding M { r with journal := t :: r.journal } := ⟨hr.toClean.enter ht, hr.held⟩

/-! ### Arguments and signatures -/

/-- Arguments ready to be used, as the parameters promise them; `blocks` are the types of the blocks.  Each argument
is used where the one before leaves the variables: the value is asked for, the block is run any number of times, or
the variable is set to the piped value. -/
inductive ArgumentsFit (piped : Option ValueType) :
    List BoundArgument → List Parameter → List ValueType → Holdings → Holdings → Prop where
  | nil {M : Holdings} : ArgumentsFit piped [] [] [] M M
  | value {get name t arguments parameters blocks} {M K N : Holdings} (hget : Eval.Safe M K get t.Admits)
      (rest : ArgumentsFit piped arguments parameters blocks K N) :
      ArgumentsFit piped (.value get :: arguments) (⟨name, .value t⟩ :: parameters) blocks M N
  | block {run name feed output u arguments parameters blocks} {M K N : Holdings} (hle : M ≤ K)
      (hrun : ∀ input : Option Value, AdmitsPiped (feed.type piped) (input.getD .void) →
        Eval.Safe K K (run input) u.Admits)
      (houtput : ∀ t ∈ output, u.assignable t) (rest : ArgumentsFit piped arguments parameters blocks K N) :
      ArgumentsFit piped (.block run :: arguments) (⟨name, .block feed output⟩ :: parameters) (u :: blocks) M N
  | assign {target name arguments parameters blocks} {M N : Holdings}
      (rest : ArgumentsFit piped arguments parameters blocks (M.put target (piped.getD .any)) N) :
      ArgumentsFit piped (.variable target :: arguments) (⟨name, .assign⟩ :: parameters) blocks M N
  | variable {target name arguments parameters blocks} {M N : Holdings}
      (rest : ArgumentsFit piped arguments parameters blocks M N) :
      ArgumentsFit piped (.variable target :: arguments) (⟨name, .variable⟩ :: parameters) blocks M N

/-- A call as the types known for it promise: a signature that takes the piped type, a value of that type,
the type arguments, and arguments that fit and take what the variables hold from `M` to `N`. -/
structure Call.Promised (c : Call) (s : Signature) (facts : TypeFacts) (M N : Holdings) : Prop where
  accepted : s.accepts facts.piped
  piped : AdmitsPiped facts.piped c.piped
  types : c.types = facts.types
  typeCount : facts.types.length = s.typeCount
  arguments : ArgumentsFit facts.piped c.arguments s.parameters facts.blocks M N

/-- Called as promised, the implementation answers with a value of the return type, does not fail for a wrong
type, and does to the variables what its arguments do. -/
def Signature.Sound (s : Signature) : Prop :=
  ∀ facts c M N, Call.Promised c s facts M N → (s.run c).Safe M N (s.returns.type facts).Admits

/-- Every signature of the command is sound. -/
def Command.Sound (c : Command) : Prop := ∀ s ∈ c.signatures, s.Sound

/-- The value piped to a signature that wants one is of the wanted type. -/
theorem Call.Promised.admits {c : Call} {s : Signature} {facts : TypeFacts} (h : Promised c s facts M N)
    {want : ValueType} (hs : s.piped = some want) :
    ∃ got, facts.piped = some got ∧ got.assignable want ∧ got.Admits c.piped ∧ want.Admits c.piped := by
  have haccepted := h.accepted
  unfold Signature.accepts Signature.fit? at haccepted
  rw [hs] at haccepted
  cases hgot : facts.piped with
  | none =>
    rw [hgot] at haccepted
    cases haccepted
  | some got =>
    have hadmits : got.Admits c.piped := h.piped got hgot
    have hassignable : got.assignable want := by
      rw [hgot] at haccepted
      dsimp only at haccepted
      split at haccepted
      · rename_i heq
        rw [heq]
        exact ValueType.assignable_refl want
      · split at haccepted
        · assumption
        · cases haccepted
    exact ⟨got, rfl, hassignable, hadmits, hadmits.assignable hassignable⟩

end KeyConsole.Console
