import KeyConsole.Console.Program
import KeyConsole.Proofs.Console.VariableReads

/-!
# Proofs.Console.ReportedTypes: the type that was read and the type that the value reports

A value reports a type that is computed from itself: a list without items, or with items of several types, reports
`list<any>`.  So a value of the type that was read need not report a type assignable to it.  `t.Uniform v` says
where it does: wherever the type asks for a list of something in particular, the items are there and report one type.
-/

namespace KeyConsole.Console

namespace ValueType

variable {t : ValueType} {v : Value}

/-- The value reports as much as the type says.  Void stands where void is asked for and not where anything is, a
list of anything does not consist of voids, and any other list has items that report one type. -/
def Uniform : ValueType → Value → Prop
  | void, v => v.isVoid = true
  | any, v => v.isVoid = false
  | list any, .list items => items = [] ∨ ∃ w ∈ items, w.isVoid = false
  | list t, .list items => items ≠ [] ∧ (∀ w ∈ items, ∀ u ∈ items, w.type = u.type) ∧ ∀ w ∈ items, t.Uniform w
  | list _, _ => False
  | _, _ => True

theorem uniform_list {items : List Value} (ht : t ≠ any) :
    (list t).Uniform (.list items) ↔
      items ≠ [] ∧ (∀ w ∈ items, ∀ u ∈ items, w.type = u.type) ∧ ∀ w ∈ items, t.Uniform w := by
  cases t with
  | any => exact absurd rfl ht
  | _ => rfl

/-! ### Types that values report -/

theorem type_eq_void : v.type = void ↔ v.isVoid = true := by
  match v with
  | .void => simp [Value.type, Value.isVoid]
  | .list [] => simp [Value.type, Value.isVoid]
  | .list (_ :: _) => simp [Value.type, Value.isVoid]
  | .int _ => simp [Value.type, Value.isVoid]
  | .float _ => simp [Value.type, Value.isVoid]
  | .bool _ => simp [Value.type, Value.isVoid]
  | .string _ => simp [Value.type, Value.isVoid]

theorem type_ne_void : v.type ≠ void ↔ v.isVoid = false := by
  rw [Ne, type_eq_void, Bool.not_eq_true]

/-- The element type that a list reports: that of its items if they agree, else `any`. -/
theorem type_list (w : Value) (rest : List Value) :
    (∀ u ∈ rest, u.type = w.type) ∧ (Value.list (w :: rest)).type = .list w.type ∨
      (∃ u ∈ rest, u.type ≠ w.type) ∧ (Value.list (w :: rest)).type = .list any := by
  by_cases hall : ∀ u ∈ rest, u.type = w.type
  · refine Or.inl ⟨hall, ?_⟩
    rw [Value.type, if_pos (Value.allOf_eq_true.mpr hall)]
  · refine Or.inr ⟨by simpa using hall, ?_⟩
    rw [Value.type, if_neg fun h => hall (Value.allOf_eq_true.mp h)]

/-! ### What values report -/

/-- A value of a type reports a type assignable to it just if it is uniform. -/
theorem Admits.assignable_iff (h : t.Admits v) : v.type.assignable t = true ↔ t.Uniform v := by
  induction t generalizing v with
  | void => rw [assignable_void, type_eq_void]; rfl
  | any => rw [assignable_any, type_ne_void]; rfl
  | list t ih =>
    obtain ⟨items, rfl, hitems⟩ := h
    cases items with
    | nil =>
      have hempty : (Value.list []).type.assignable (list t) = any.assignable t := rfl
      rw [hempty, any_assignable]
      by_cases ht : t = any
      · rw [ht]
        exact ⟨fun _ => Or.inl rfl, fun _ => rfl⟩
      · rw [uniform_list ht]
        exact ⟨fun h => absurd h ht, fun h => absurd rfl h.1⟩
    | cons w rest =>
      rcases type_list w rest with ⟨hsame, htype⟩ | ⟨⟨u, hu, hdiffer⟩, htype⟩
      · have hall : ∀ u ∈ w :: rest, u.type = w.type := List.forall_mem_cons.mpr ⟨rfl, hsame⟩
        have hassignable : (Value.list (w :: rest)).type.assignable (list t) = w.type.assignable t := by
          rw [htype]
          rfl
        rw [hassignable]
        by_cases ht : t = any
        · subst ht
          rw [assignable_any, type_ne_void]
          refine ⟨fun h => Or.inr ⟨w, List.mem_cons_self, h⟩, fun h => ?_⟩
          rcases h with h | ⟨u, hu, hvoid⟩
          · cases h
          · rw [← type_ne_void, ← hall u hu]
            exact type_ne_void.mpr hvoid
        · rw [uniform_list ht]
          refine ⟨fun h => ⟨List.cons_ne_nil _ _, fun u hu x hx => ?_, fun u hu => ?_⟩, fun h => ?_⟩
          · rw [hall u hu, hall x hx]
          · rw [← ih (hitems u hu), hall u hu]
            exact h
          · rw [ih (hitems w List.mem_cons_self)]
            exact h.2.2 w List.mem_cons_self
      · have hassignable : (Value.list (w :: rest)).type.assignable (list t) = any.assignable t := by
          rw [htype]
          rfl
        rw [hassignable, any_assignable]
        by_cases ht : t = any
        · subst ht
          refine ⟨fun _ => Or.inr ?_, fun _ => rfl⟩
          -- items that report several types are not all void
          by_cases hvoid : w.isVoid = true
          · refine ⟨u, List.mem_cons_of_mem _ hu, type_ne_void.mp fun h => hdiffer ?_⟩
            rw [h, type_eq_void.mpr hvoid]
          · exact ⟨w, List.mem_cons_self, by simpa using hvoid⟩
        · rw [uniform_list ht]
          refine ⟨fun h => absurd h ht, fun h => absurd ?_ hdiffer⟩
          exact h.2.1 u (List.mem_cons_of_mem _ hu) w List.mem_cons_self
  | _ =>
    have htype := h.type_eq (fun _ h => by cases h) (fun h => by cases h) fun h => by cases h
    rw [htype]
    exact ⟨fun _ => trivial, fun _ => assignable_refl _⟩

end ValueType

/-! ### Values stored and read back -/

/-- Store a value in a variable and read it as a value of a type. -/
def Call.readBack (name : String) (t : ValueType) (v : Value) : Eval Value := do
  setVariable name v
  readVariable name t

/-- A value that is stored can be read back as what it reports, and as nothing else. -/
theorem Call.readBack_eq (name : String) (t : ValueType) (v : Value) (r : Running) :
    ((readBack name t v).run.run r).1 = if v.type.assignable t then .ok v
      else .error (.fault { cause := .wrongVariableType name t v.type }) := by
  have hstored : (r.session.setVariable name v).store.get? name = some v := by
    unfold Session.setVariable
    rw [Ordered.NameMap.get?_put, if_pos rfl]
  have hread : ∀ r' : Running, r'.session.store.get? name = some v →
      ((readVariable name t).run.run r').1 = if v.type.assignable t then .ok v
        else .error (.fault { cause := .wrongVariableType name t v.type }) := by
    intro r' h
    have hget : (get : Eval Running).run.run r' = (pure (.ok r', r') : Id _) := rfl
    rw [readVariable, ExceptT.run_bind, StateT.run_bind, hget, pure_bind]
    dsimp only
    rw [h]
    dsimp only
    split <;> rfl
  exact hread { r with session := r.session.setVariable name v, journal := .stored name v :: r.journal } hstored

/-! ### Expressions -/

/-- Where static types and reported types agree.  Read an expression of built-in commands for an input and the
variables of a session, let each `var` in it stand where its variable may only hold values of one type or of the type
that `var` was read with, and let the expression have a value there.  The type that was read admits this value.  The
type that the value reports is assignable to the type that was read just if the value is uniform, and just then the
value can be stored in a variable and read back as a value of that type. -/
theorem uniform_values_report_their_type {newlineEnds : Bool} {source : String} {input : Option Value}
    {s s' : Session} {p : Pipeline} {v : Value}
    (hread : (Directory.builtinWith newlineEnds).read source (input.map Value.type) s.variableTypes = .ok p)
    (hsettled : p.Each Holdings.flow Step.Settled (.of s.variableTypes))
    (hvalue : (Directory.builtinWith newlineEnds).evaluate source input s = (some v, s')) :
    p.returns.Admits v ∧ (v.type.assignable p.returns = true ↔ p.returns.Uniform v) ∧
      ∀ name r, ((Call.readBack name p.returns v).run.run r).1 = .ok v ↔ p.returns.Uniform v := by
  obtain ⟨hp, hpiped⟩ := Directory.read_typed hread
  have hinput : ValueType.AdmitsPiped p.piped (input.getD .void) := hpiped ▸ ValueType.admitsPiped_type input
  have hrun : ((p.run (Directory.builtinWith newlineEnds).listing input).run { session := s }).1 = some v := by
    unfold Directory.evaluate at hvalue
    rw [hread] at hvalue
    exact congrArg Prod.fst hvalue
  obtain ⟨-, -, hvalues⟩ := p.run_of_trusted hp (p.trusted_of_settled hread hsettled) hinput (Prod.ext hrun rfl)
  have hadmits : p.returns.Admits v := hvalues v rfl
  have hiff := hadmits.assignable_iff
  refine ⟨hadmits, hiff, fun name r => ?_⟩
  rw [Call.readBack_eq, ← hiff]
  split
  · rename_i h
    exact ⟨fun _ => h, fun _ => rfl⟩
  · rename_i h
    refine ⟨fun hok => ?_, fun hok => absurd hok h⟩
    cases hok

/-- Lists of numbers in a list, all of a length of their own, from a variable. -/
theorem uniform_values_report_their_type_nestedLists :
    ∃ p v s', (Directory.builtinWith false).read "i 2 | iota | map { iota } | => $x; var $x"
        ((none : Option Value).map Value.type) (Session.variableTypes {}) = .ok p ∧
      p.Each Holdings.flow Step.Settled (.of (Session.variableTypes {})) ∧ p.returns = .list (.list .int) ∧
      (Directory.builtinWith false).evaluate "i 2 | iota | map { iota } | => $x; var $x" none {} = (some v, s') ∧
      v.type = .list (.list .int) ∧
      p.returns.Admits v ∧ (v.type.assignable p.returns = true ↔ p.returns.Uniform v) ∧
        ∀ name r, ((Call.readBack name p.returns v).run.run r).1 = .ok v ↔ p.returns.Uniform v := by
  have hchecked : ((Directory.builtinWith false).read "i 2 | iota | map { iota } | => $x; var $x"
      ((none : Option Value).map Value.type) (Session.variableTypes {})).toOption.any (fun p =>
        decide (p.Each Holdings.flow Step.Settled (.of (Session.variableTypes {}))) &&
          decide (p.returns = .list (.list .int))) &&
      ((Directory.builtinWith false).evaluate "i 2 | iota | map { iota } | => $x; var $x" none {}).1.any (fun v =>
        decide (v.type = .list (.list .int))) = true := by decide +kernel
  simp only [Bool.and_eq_true, decide_eq_true_eq] at hchecked
  obtain ⟨hpipeline, hend⟩ := hchecked
  obtain ⟨p, hread, hp⟩ := exists_ok_of_any hpipeline
  simp only [Bool.and_eq_true, decide_eq_true_eq] at hp
  cases hvalue : (Directory.builtinWith false).evaluate "i 2 | iota | map { iota } | => $x; var $x" none {} with
  | mk v s' =>
    rw [hvalue] at hend
    cases v with
    | none => cases hend
    | some v =>
      refine ⟨p, v, s', hread, hp.1, hp.2, rfl, of_decide_eq_true hend, ?_⟩
      exact uniform_values_report_their_type hread hp.1 hvalue

/-- In the session the expression, which is read as one of a type other than void, has a value that reports a type
not assignable to it. -/
def ReportsOther (source : String) (s : Session) : Prop :=
  ∃ p v s', (Directory.builtinWith false).read source none s.variableTypes = .ok p ∧ p.returns ≠ .void ∧
    (Directory.builtinWith false).evaluate source none s = (some v, s') ∧ v.type.assignable p.returns = false

theorem reportsOther_of_check {source : String} {s : Session}
    (h : ((Directory.builtinWith false).read source none s.variableTypes).toOption.any (fun p =>
      !decide (p.returns = .void) && ((Directory.builtinWith false).evaluate source none s).1.any fun v =>
        !v.type.assignable p.returns) = true) : ReportsOther source s := by
  obtain ⟨p, hread, hp⟩ := exists_ok_of_any h
  simp only [Bool.and_eq_true, Bool.not_eq_true', decide_eq_false_iff_not] at hp
  obtain ⟨hreturns, hend⟩ := hp
  cases hvalue : (Directory.builtinWith false).evaluate source none s with
  | mk v s' =>
    rw [hvalue] at hend
    cases v with
    | none => cases hend
    | some v => exact ⟨p, v, s', hread, hreturns, hvalue, (Bool.not_eq_true' _).mp hend⟩

/-- A list without numbers may be a list of anything and cannot be read back as one of numbers; and a variable that a
block would set keeps a value of another type if the block does not run. -/
theorem empty_list_reports_any :
    ReportsOther "i 0 | iota" {} ∧
      ((Directory.builtinWith false).evaluate "i 0 | iota | => $x; val list<int> $x" none {}).2.faults.map Fault.cause
        = [.wrongVariableType "x" (.list .int) (.list .any)] ∧
      ReportsOther "i 0 | iota | map { tostring | => $x }; var $x" (Session.setVariable "x" (.int 5) {}) := by
  refine ⟨reportsOther_of_check ?_, ?_, reportsOther_of_check ?_⟩
  · decide +kernel
  · decide +kernel
  · decide +kernel

end KeyConsole.Console
