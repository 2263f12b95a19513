import KeyConsole.Proofs.Console.TypeSafety

/-!
# Proofs.Console.SoundBuiltins: the built-in commands keep their promise

All built-in signatures are sound but the one of `var`, which returns what a variable holds while it runs and
promises what the variable was when the expression was read.
-/

namespace KeyConsole.Console

open Eval
open ValueType (AdmitsPiped)

variable {c : Call} {i : Nat} {piped : Option ValueType} {t : ValueType} {M N : Holdings}

/-! ### Arguments of a call -/

namespace Call

theorem value_eq {get : Eval Value} (h : c.arguments[i]? = some (.value get)) : c.value i = get := by
  simp only [value, argument, h, pure_bind]

theorem runBlock_eq {run : Option Value → Eval Value} {input : Option Value}
    (h : c.arguments[i]? = some (.block run)) : c.runBlock i input = run input := by
  simp only [runBlock, argument, h, pure_bind]

theorem variableName_eq {name : String} (h : c.arguments[i]? = some (.variable name)) :
    c.variableName i = pure name := by
  simp only [variableName, argument, h, pure_bind]

theorem typeArgument_eq (h : c.types[i]? = some t) : c.typeArgument i = pure t := by
  simp only [typeArgument, h]

theorem safe_int {get : Eval Value} (h : c.arguments[i]? = some (.value get))
    (hget : Safe M N get ValueType.int.Admits) : Safe M N (c.int i) fun _ => True := by
  unfold int
  rw [value_eq h]
  refine Brings.bind hget fun v hv => ?_
  obtain ⟨n, rfl⟩ := hv
  exact Brings.pure trivial

theorem safe_float {get : Eval Value} (h : c.arguments[i]? = some (.value get))
    (hget : Safe M N get ValueType.float.Admits) : Safe M N (c.float i) fun _ => True := by
  unfold float
  rw [value_eq h]
  refine Brings.bind hget fun v hv => ?_
  obtain ⟨x, rfl⟩ := hv
  exact Brings.pure trivial

theorem safe_string {get : Eval Value} (h : c.arguments[i]? = some (.value get))
    (hget : Safe M N get ValueType.string.Admits) : Safe M N (c.string i) fun _ => True := by
  unfold string
  rw [value_eq h]
  refine Brings.bind hget fun v hv => ?_
  obtain ⟨s, rfl⟩ := hv
  exact Brings.pure trivial

/-- A variable is only answered with if its value passes the check of types. -/
theorem safe_readVariable (name : String) (t : ValueType) : Safe M M (readVariable name t) t.Admits := by
  unfold readVariable
  refine Brings.bind Keeps.get fun r _ => ?_
  split
  · exact safe_throw rfl
  · refine Brings.ite (fun h => ?_) fun _ => safe_throw rfl
    exact Brings.pure (ValueType.admits_of_assignable h)

/-- A variable is answered with as a value of a type that it may hold. -/
theorem safe_readVariable_held (name : String) (t : ValueType) :
    Safe M M (readVariable name t) fun v => ∃ u ∈ M.types name, u.Admits v := by
  unfold readVariable
  refine Brings.bind Keeps.get fun r hr => ?_
  split
  · exact safe_throw rfl
  · rename_i v hv
    exact Brings.ite (fun _ => Brings.pure (hr.held name v hv)) fun _ => safe_throw rfl

end Call

namespace ArgumentsFit

variable {arguments : List BoundArgument} {name : String} {blocks : List ValueType}

theorem nothing (h : ArgumentsFit piped arguments [] blocks M N) : N = M := by
  cases h
  rfl

theorem one_value (h : ArgumentsFit piped arguments [⟨name, .value t⟩] blocks M N) :
    ∃ get, arguments[0]? = some (.value get) ∧ Safe M N get t.Admits := by
  cases h with
  | value hget rest =>
    cases rest
    exact ⟨_, rfl, hget⟩

theorem one_block {feed : Feed} {output : Option ValueType}
    (h : ArgumentsFit piped arguments [⟨name, .block feed output⟩] blocks M N) :
    ∃ run u, arguments[0]? = some (.block run) ∧ blocks = [u] ∧ (∀ t ∈ output, u.assignable t) ∧ M ≤ N ∧
      ∀ input : Option Value, AdmitsPiped (feed.type piped) (input.getD .void) →
        Safe N N (run input) u.Admits := by
  cases h with
  | block hle hrun houtput rest =>
    cases rest
    exact ⟨_, _, rfl, rfl, houtput, hle, hrun⟩

theorem one_assign (h : ArgumentsFit piped arguments [⟨name, .assign⟩] blocks M N) :
    ∃ target, arguments[0]? = some (.variable target) ∧ N = M.put target (piped.getD .any) := by
  cases h with
  | assign rest =>
    cases rest
    exact ⟨_, rfl, rfl⟩

theorem one_variable (h : ArgumentsFit piped arguments [⟨name, .variable⟩] blocks M N) :
    ∃ target, arguments[0]? = some (.variable target) ∧ N = M := by
  cases h
  rename_i rest
  cases rest
  exact ⟨_, rfl, rfl⟩

end ArgumentsFit

namespace Builtin

theorem pipedInt_eq {n : Int64} (h : c.piped = .int n) : pipedInt c = pure n := by
  simp only [pipedInt, h]

theorem pipedFloat_eq {x : Float} (h : c.piped = .float x) : pipedFloat c = pure x := by
  simp only [pipedFloat, h]

theorem pipedList_eq {items : List Value} (h : c.piped = .list items) : pipedList c = pure items := by
  simp only [pipedList, h]

theorem safe_orRaise {α : Type} {result : Option α} {message : String}
    (h : isMismatch message = false) : Safe M M (orRaise result message) fun _ => True := by
  unfold orRaise
  split
  · exact Brings.pure trivial
  · exact safe_raise h

theorem safe_intOrRaise {result : Option Int64} {message : String} (h : isMismatch message = false) :
    Safe M M (do return Value.int (← orRaise result message)) ValueType.int.Admits :=
  Brings.bind (safe_orRaise h) fun z _ => Brings.pure ⟨z, rfl⟩

theorem safe_writeLine (line : String) : Safe M M (Call.writeLine line) fun _ => True := by
  refine Brings.update fun r hr => Holding.enter (r := { r with session := r.session.writeLine line }) ?_ ?_
  · exact ⟨⟨hr.faults, hr.returned⟩, hr.held⟩
  · exact fun site v h => by cases h

/-- A variable that is set holds a value of the type of what it is set to. -/
theorem safe_setVariable (name : String) {v : Value} (hv : t.Admits v) :
    Safe M (M.put name t) (Call.setVariable name v) fun _ => True := by
  refine Brings.update fun r hr => Holding.enter (r := { r with session := r.session.setVariable name v }) ?_ ?_
  · refine ⟨⟨hr.faults, hr.returned⟩, fun other w hw => ?_⟩
    have hput : (r.session.store.put name v).get? other = some w := hw
    rw [Ordered.NameMap.get?_put] at hput
    by_cases hname : name = other
    · rw [if_pos hname] at hput
      cases hput
      exact ⟨t, hname ▸ Holdings.mem_put_self name t M, hv⟩
    · rw [if_neg hname] at hput
      obtain ⟨u, hu, hadmits⟩ := hr.held other w hput
      exact ⟨u, (Holdings.put_of_ne hname).symm ▸ hu, hadmits⟩
  · exact fun site v h => by cases h

/-! ### Literals, arithmetic and conversions -/

/-- What a command without parameters does leaves the variables as they are. -/
theorem sound_alone {s : Signature} (hs : s.parameters = [])
    (h : ∀ facts c M, Call.Promised c s facts M M → Safe M M (s.run c) (s.returns.type facts).Admits) :
    s.Sound := by
  intro facts c M N hc
  have hfit := hc.arguments
  rw [hs] at hfit
  obtain rfl := hfit.nothing
  exact h facts c N hc

/-- A literal of a scalar type returns an argument of this type. -/
theorem sound_literalCommand (name description : String) (hlist : ∀ u, t ≠ .list u) (hvoid : t ≠ .void)
    (hany : t ≠ .any) : (literalCommand name t description).Sound := by
  refine List.forall_mem_singleton.mpr fun facts c M N h => ?_
  obtain ⟨get, hargument, hget⟩ := h.arguments.one_value
  show Safe M N (do let v ← c.value 0; _) t.Admits
  rw [Call.value_eq hargument]
  refine Brings.bind hget fun v hv => Brings.ite (fun _ => Brings.pure hv) fun hn => ?_
  rw [hv.type_eq hlist hvoid hany] at hn
  exact absurd (ValueType.assignable_refl t) hn

theorem sound_arithmetic {name description : String} {onInts : Int64 → Int64 → Option Int64}
    {onFloats : Float → Float → Float} : (arithmetic name description onInts onFloats).Sound := by
  refine List.forall_mem_cons.mpr ⟨fun facts c M N h => ?_, List.forall_mem_singleton.mpr fun facts c M N h => ?_⟩
  · obtain ⟨_, -, -, -, x, hx⟩ := h.admits rfl
    obtain ⟨get, hargument, hget⟩ := h.arguments.one_value
    show Safe M N (do let x ← pipedInt c; _) ValueType.int.Admits
    rw [pipedInt_eq hx, pure_bind]
    refine Brings.bind (Call.safe_int hargument hget) fun y _ => Brings.bind (safe_orRaise ?_) fun z _ =>
      Brings.pure ⟨z, rfl⟩
    simp only [String.append_assoc]
    exact innocent_of_head (x := '\'') (by simp) (by decide) _
  · obtain ⟨_, -, -, -, x, hx⟩ := h.admits rfl
    obtain ⟨get, hargument, hget⟩ := h.arguments.one_value
    show Safe M N (do let x ← pipedFloat c; _) ValueType.float.Admits
    rw [pipedFloat_eq hx, pure_bind]
    exact Brings.bind (Call.safe_float hargument hget) fun y _ => Brings.pure ⟨_, rfl⟩

theorem sound_onInt {subcommand : Option String} {f : Int64 → Eval Value}
    (hf : ∀ M n, Safe M M (f n) t.Admits) : (onInt subcommand t f).Sound := by
  refine sound_alone rfl fun facts c M h => ?_
  obtain ⟨_, -, -, -, x, hx⟩ := h.admits rfl
  show Safe M M (do f (← pipedInt c)) t.Admits
  rw [pipedInt_eq hx, pure_bind]
  exact hf M x

theorem sound_onFloat {subcommand : Option String} {f : Float → Eval Value}
    (hf : ∀ M x, Safe M M (f x) t.Admits) : (onFloat subcommand t f).Sound := by
  refine sound_alone rfl fun facts c M h => ?_
  obtain ⟨_, -, -, -, x, hx⟩ := h.admits rfl
  show Safe M M (do f (← pipedFloat c)) t.Admits
  rw [pipedFloat_eq hx, pure_bind]
  exact hf M x

theorem sound_literals : ∀ c ∈ literals, c.Sound := by
  unfold literals
  simp only [List.forall_mem_cons, List.not_mem_nil, false_implies, implies_true, and_true]
  refine ⟨?_, ?_, ?_, ?_⟩ <;>
    exact sound_literalCommand _ _ (fun u h => by cases h) (fun h => by cases h) fun h => by cases h

theorem sound_numbers : ∀ c ∈ numbers, c.Sound := by
  unfold numbers
  simp only [List.forall_mem_cons, List.not_mem_nil, false_implies, implies_true, and_true]
  refine ⟨sound_arithmetic, sound_arithmetic, sound_arithmetic, sound_arithmetic, sound_arithmetic, ?even,
    ?math⟩
  case even =>
    refine List.forall_mem_singleton.mpr (sound_alone rfl fun facts c M h => ?_)
    obtain ⟨_, -, -, -, x, hx⟩ := h.admits rfl
    show Safe M M (do let x ← pipedInt c; _) ValueType.bool.Admits
    rw [pipedInt_eq hx, pure_bind]
    exact Brings.pure ⟨_, rfl⟩
  case math =>
    unfold Command.Sound
    simp only [List.forall_mem_cons, List.not_mem_nil, false_implies, implies_true, and_true]
    refine ⟨sound_onInt fun M n => ?_, sound_onFloat fun M x => Brings.pure ⟨_, rfl⟩, sound_onInt fun M n => ?_,
      sound_onFloat fun M x => Brings.pure ⟨_, rfl⟩⟩
    · refine safe_intOrRaise ?_
      exact innocent_of_head (x := 'c') (by simp) (by decide) _
    · refine safe_intOrRaise ?_
      exact innocent_of_head (x := 'c') (by simp) (by decide) _

/-- Only what is no number has no whole part. -/
theorem innocent_wholePart {x : Float} (h : Decimal.wholePart? x = none) :
    isMismatch (Decimal.floatText x ++ " has no integer value") = false := by
  unfold Decimal.wholePart? at h
  unfold Decimal.floatText
  split at h
  · rename_i heq
    rw [heq]
    decide
  · rename_i negative heq
    rw [heq]
    cases negative <;> decide
  · cases h
  · cases h

theorem innocent_intFault (e : Decimal.IntFault) : isMismatch e.message = false := by
  cases e <;> decide

theorem innocent_floatFault (e : Decimal.FloatFault) : isMismatch e.message = false := by
  cases e <;> decide

theorem sound_conversions : ∀ c ∈ conversions, c.Sound := by
  unfold conversions
  simp only [List.forall_mem_cons, List.not_mem_nil, false_implies, implies_true, and_true]
  refine ⟨?tostring, ?tofloat, ?toint⟩
  case tostring => exact List.forall_mem_singleton.mpr (sound_alone rfl fun facts c M h => Brings.pure ⟨_, rfl⟩)
  case tofloat =>
    refine List.forall_mem_cons.mpr ⟨sound_onInt fun M n => Brings.pure ⟨_, rfl⟩,
      List.forall_mem_singleton.mpr (sound_alone rfl fun facts c M h => ?_)⟩
    dsimp only
    split
    · exact Brings.pure ⟨_, rfl⟩
    · exact safe_raise (innocent_floatFault _)
  case toint =>
    unfold Command.Sound
    simp only [List.forall_mem_cons, List.not_mem_nil, false_implies, implies_true, and_true]
    refine ⟨sound_onFloat fun M x => ?_, sound_alone rfl fun facts c M h => ?_,
      sound_alone rfl fun facts c M h => Brings.pure ⟨_, rfl⟩⟩
    · unfold orRaise
      cases hwhole : Decimal.wholePart? x with
      | none =>
        have hraise : Safe M M (Call.raise _) fun _ : Int => False := safe_raise (innocent_wholePart hwhole)
        exact Brings.bind hraise fun _ h => h.elim
      | some n => exact Brings.bind (P := fun _ => True) (Brings.pure trivial) fun n _ => Brings.pure ⟨_, rfl⟩
    · dsimp only
      split
      · exact Brings.pure ⟨_, rfl⟩
      · exact safe_raise (innocent_intFault _)

/-! ### Lists -/

/-- Only lists are of a type that is assignable to a list type. -/
theorem list_of_promised {s : Signature} {facts : TypeFacts} (h : c.Promised s facts M N)
    (hs : s.piped = some (.list t)) :
    ∃ u items, facts.piped = some (.list u) ∧ c.piped = .list items ∧ (∀ v ∈ items, u.Admits v) ∧
      ∀ v ∈ items, t.Admits v := by
  obtain ⟨got, hgot, hassignable, hadmits, items, hitems, hall⟩ := h.admits hs
  obtain ⟨u, rfl, -⟩ := ValueType.list_of_assignable hassignable
  obtain ⟨items', hitems', hall'⟩ := hadmits
  rw [hitems] at hitems'
  cases hitems'
  exact ⟨u, items, hgot, hitems, hall', hall⟩

theorem safe_sumInts (items : List Value) (total : Int64) (h : ∀ v ∈ items, ValueType.int.Admits v) :
    Safe M M (sumInts items total) fun _ => True := by
  induction items generalizing total with
  | nil => exact Brings.pure trivial
  | cons v rest ih =>
    obtain ⟨n, rfl⟩ := h v List.mem_cons_self
    unfold sumInts
    refine Brings.bind (safe_orRaise ?_) fun total _ => ih total fun w hw => h w (List.mem_cons_of_mem _ hw)
    exact (innocent_of_head (x := 's') (by simp) (by decide)).message

theorem safe_mapItems {run : Value → Eval Value} {Q : Value → Prop} (items done : List Value)
    (hrun : ∀ v ∈ items, Safe M M (run v) Q) (hdone : ∀ w ∈ done, Q w) :
    Safe M M (mapItems run items done) fun results => ∀ w ∈ results, Q w := by
  induction items generalizing done with
  | nil => exact Brings.pure fun w hw => hdone w (List.mem_reverse.mp hw)
  | cons v rest ih =>
    unfold mapItems
    refine Brings.bind (hrun v List.mem_cons_self) fun w hw => ?_
    exact ih _ (fun u hu => hrun u (List.mem_cons_of_mem _ hu)) (List.forall_mem_cons.mpr ⟨hw, hdone⟩)

/-- Whatever a block answers, the items kept are items of the list. -/
theorem safe_keepItems {run : Value → Eval Value} {wanted : Bool} {Q R : Value → Prop}
    (items done : List Value) (hrun : ∀ v ∈ items, Safe M M (run v) R) (hitems : ∀ v ∈ items, Q v)
    (hdone : ∀ w ∈ done, Q w) : Safe M M (keepItems run wanted items done) fun kept => ∀ w ∈ kept, Q w := by
  induction items generalizing done with
  | nil => exact Brings.pure fun w hw => hdone w (List.mem_reverse.mp hw)
  | cons v rest ih =>
    obtain ⟨hv, hrest⟩ := List.forall_mem_cons.mp hitems
    unfold keepItems
    refine Brings.bind (hrun v List.mem_cons_self) fun answer _ => ?_
    refine ih _ (fun u hu => hrun u (List.mem_cons_of_mem _ hu)) hrest ?_
    split
    · exact List.forall_mem_cons.mpr ⟨hv, hdone⟩
    · exact hdone

theorem admits_countingUp (n : Nat) : (ValueType.list .int).Admits (.list (countingUp n)) := by
  refine ⟨_, rfl, fun v hv => ?_⟩
  obtain ⟨k, -, rfl⟩ := List.mem_map.mp hv
  exact ⟨_, rfl⟩

theorem sound_lists : ∀ c ∈ lists, c.Sound := by
  unfold lists
  simp only [List.forall_mem_cons, List.not_mem_nil, false_implies, implies_true, and_true]
  refine ⟨?iota, ?sum, ?count, ?take, ?map, ?filter⟩
  case iota =>
    refine List.forall_mem_singleton.mpr (sound_onInt fun M n => Brings.ite (fun _ => safe_raise ?_) fun _ =>
      Brings.ite (fun _ => safe_raise ?_) fun _ => Brings.pure (admits_countingUp _))
    · exact ((innocent_of_head (x := 'c') (by simp) (by decide)).append _).append _ |>.message
    · exact ((((innocent_of_head (x := 'c') (by simp) (by decide)).append _).append _).append _).append _ |>.message
  case sum =>
    refine List.forall_mem_cons.mpr ⟨sound_alone rfl fun facts c M h => ?_,
      List.forall_mem_singleton.mpr (sound_alone rfl fun facts c M h => ?_)⟩
    · obtain ⟨u, items, -, hpiped, -, hints⟩ := list_of_promised h rfl
      show Safe M M (do let items ← pipedList c; _) ValueType.int.Admits
      rw [pipedList_eq hpiped, pure_bind]
      exact Brings.bind (safe_sumInts items 0 hints) fun n _ => Brings.pure ⟨n, rfl⟩
    · obtain ⟨u, items, -, hpiped, -, -⟩ := list_of_promised h rfl
      show Safe M M (do return .float (sumFloats (← pipedList c))) ValueType.float.Admits
      rw [pipedList_eq hpiped, pure_bind]
      exact Brings.pure ⟨_, rfl⟩
  case count =>
    refine List.forall_mem_singleton.mpr (sound_alone rfl fun facts c M h => ?_)
    obtain ⟨u, items, -, hpiped, -, -⟩ := list_of_promised h rfl
    show Safe M M (do let items ← pipedList c; _) ValueType.int.Admits
    rw [pipedList_eq hpiped, pure_bind]
    refine safe_intOrRaise ?_
    exact (innocent_of_head (x := 'o') (by simp) (by decide)).message
  case take =>
    refine List.forall_mem_singleton.mpr fun facts c M N h => ?_
    obtain ⟨u, items, hfacts, hpiped, hitems, -⟩ := list_of_promised h rfl
    obtain ⟨get, hargument, hget⟩ := h.arguments.one_value
    show Safe M N (do let n ← c.int 0; _) (facts.piped.getD .void).Admits
    refine Brings.bind (Call.safe_int hargument hget) fun n _ => ?_
    rw [pipedList_eq hpiped, pure_bind, hfacts]
    exact Brings.pure ⟨_, rfl, fun v hv => hitems v (List.mem_of_mem_take hv)⟩
  case map =>
    refine List.forall_mem_singleton.mpr fun facts c M N h => ?_
    obtain ⟨u, items, hfacts, hpiped, hitems, -⟩ := list_of_promised h rfl
    obtain ⟨run, t, hargument, hblocks, -, hle, hrun⟩ := h.arguments.one_block
    show Safe M N (do let items ← pipedList c; _) (listOfFirstBlock facts).Admits
    unfold listOfFirstBlock
    rw [pipedList_eq hpiped, pure_bind, hblocks]
    rw [hfacts] at hrun
    refine Brings.of (Brings.bind (safe_mapItems items [] (fun v hv => ?_) fun w hw => by cases hw) fun ws hws =>
      Brings.pure ⟨ws, rfl, hws⟩) fun _ hr => hr.mono hle
    rw [Call.runBlock_eq hargument]
    refine hrun (some v) fun t ht => ?_
    cases ht
    exact hitems v hv
  case filter =>
    refine List.forall_mem_singleton.mpr fun facts c M N h => ?_
    obtain ⟨u, items, hfacts, hpiped, hitems, -⟩ := list_of_promised h rfl
    obtain ⟨run, t, hargument, hblocks, -, hle, hrun⟩ := h.arguments.one_block
    show Safe M N (do let items ← pipedList c; _) (facts.piped.getD .void).Admits
    rw [pipedList_eq hpiped, pure_bind, hfacts]
    rw [hfacts] at hrun
    refine Brings.of (Brings.bind (safe_keepItems (R := t.Admits) items [] (fun v hv => ?_) hitems fun w hw => by
      cases hw) fun ws hws => Brings.pure ⟨ws, rfl, hws⟩) fun _ hr => hr.mono hle
    rw [Call.runBlock_eq hargument]
    refine hrun (some v) fun t ht => ?_
    cases ht
    exact hitems v hv

/-! ### Variables and lines -/

/-- All commands on variables but `var`. -/
theorem sound_storage : ∀ c ∈ storage, c.name ≠ "var" → c.Sound := by
  unfold storage
  simp only [List.forall_mem_cons, List.not_mem_nil, false_implies, implies_true, and_true]
  refine ⟨fun _ => ?assign, fun h => absurd rfl h, fun _ => ?val⟩
  case assign =>
    refine List.forall_mem_singleton.mpr fun facts c M N h => ?_
    obtain ⟨got, hgot, -, hadmits, -⟩ := h.admits rfl
    obtain ⟨target, hargument, rfl⟩ := h.arguments.one_assign
    show Safe M (M.put target (facts.piped.getD .any)) (do let name ← c.variableName 0; _)
      (facts.piped.getD .void).Admits
    rw [Call.variableName_eq hargument, pure_bind, hgot]
    exact Brings.bind (safe_setVariable _ hadmits) fun _ _ => Brings.pure hadmits
  case val =>
    refine List.forall_mem_singleton.mpr fun facts c M N h => ?_
    obtain ⟨target, hargument, rfl⟩ := h.arguments.one_variable
    obtain ⟨t, ht⟩ := List.length_eq_one_iff.mp h.typeCount
    have htype : c.types[0]? = some t := by rw [h.types, ht]; rfl
    show Safe N N (do let t ← c.typeArgument 0; _) (firstType facts).Admits
    unfold firstType
    rw [Call.typeArgument_eq htype, pure_bind, Call.variableName_eq hargument, pure_bind, ht]
    exact Call.safe_readVariable target t

theorem sound_others : ∀ c ∈ others, c.Sound := by
  unfold others
  simp only [List.forall_mem_cons, List.not_mem_nil, false_implies, implies_true, and_true]
  refine ⟨?echo, ?types, ?help⟩
  case echo =>
    refine List.forall_mem_singleton.mpr fun facts c M N h => ?_
    obtain ⟨get, hargument, hget⟩ := h.arguments.one_value
    refine Brings.bind (Call.safe_string hargument hget) fun line _ => ?_
    exact Brings.bind (safe_writeLine line) fun _ _ => Brings.pure trivial
  case types => exact List.forall_mem_singleton.mpr (sound_alone rfl fun facts c M h => Brings.pure ⟨_, rfl⟩)
  case help =>
    refine List.forall_mem_singleton.mpr (sound_alone rfl fun facts c M h => ?_)
    exact Brings.bind (Keeps.forM safe_writeLine _) fun _ _ => Brings.pure trivial

/-- All built-in commands but `var` are sound. -/
theorem sound_commands (c : Command) (h : c ∈ commands) (hvar : c.name ≠ "var") : c.Sound := by
  simp only [commands, List.mem_append] at h
  rcases h with ((((h | h) | h) | h) | h) | h
  · exact sound_literals c h
  · exact sound_numbers c h
  · exact sound_lists c h
  · exact sound_storage c h hvar
  · exact sound_conversions c h
  · exact sound_others c h

end Builtin

end KeyConsole.Console
