import KeyConsole.Console.Value

/-!
# Proofs.Console.Admission: the values of a static type

The types `void` and `any` admit every value, a scalar type its own values, and a list type the lists whose
items its element type admits.  A value is admitted by its own type and by every type that this one is
assignable to.
-/

namespace KeyConsole.Console.ValueType

variable {a b t : ValueType} {v : Value}

/-- The values of a type. -/
def Admits : ValueType → Value → Prop
  | void, _ => True
  | int, v => ∃ n, v = .int n
  | float, v => ∃ x, v = .float x
  | bool, v => ∃ b, v = .bool b
  | string, v => ∃ s, v = .string s
  | list t, v => ∃ items, v = .list items ∧ ∀ w ∈ items, t.Admits w
  | any, _ => True

/-- A value may be piped where a type, or nothing, is expected. -/
def AdmitsPiped (piped : Option ValueType) (v : Value) : Prop := ∀ t ∈ piped, t.Admits v

/-! ### Assignable types -/

theorem assignable_refl (t : ValueType) : t.assignable t := by
  induction t with
  | list t ih => exact ih
  | _ => rfl

/-- Only the type itself is assignable to a type that is neither a list nor `any`. -/
theorem eq_of_assignable (h : a.assignable b) (hlist : ∀ t, b ≠ .list t) (hany : b ≠ .any) : a = b := by
  cases a with
  | list t =>
    cases b with
    | list u => exact absurd rfl (hlist u)
    | any => exact absurd rfl hany
    | _ => cases h
  | void => exact (of_decide_eq_true h).symm
  | _ =>
    rcases (Bool.or_eq_true _ _).mp h with h | h
    · exact absurd (of_decide_eq_true h) hany
    · exact of_decide_eq_true h

theorem assignable_void : a.assignable void = true ↔ a = void := by
  constructor
  · exact fun h => eq_of_assignable h (fun _ h => by cases h) fun h => by cases h
  · rintro rfl
    rfl

theorem assignable_any : a.assignable any = true ↔ a ≠ void := by
  cases a <;> simp [assignable]

/-- What may be anything is assignable to nothing in particular. -/
theorem any_assignable : any.assignable t = true ↔ t = any := by
  cases t <;> simp [assignable]

/-- Only a list type is assignable to a list type. -/
theorem list_of_assignable (h : a.assignable (list t)) : ∃ u, a = list u ∧ u.assignable t := by
  cases a with
  | list u => exact ⟨u, rfl, h⟩
  | _ => cases h

/-- Void is assignable to itself only, so that `any` at the end does not let it in. -/
theorem assignable_trans (hab : a.assignable b) (hbt : b.assignable t) : a.assignable t := by
  induction t generalizing a b with
  | any =>
    refine assignable_any.mpr fun ha => assignable_any.mp hbt ?_
    subst ha
    exact of_decide_eq_true hab
  | list u ih =>
    cases b with
    | list v =>
      cases a with
      | list w => exact ih hab hbt
      | _ => cases hab
    | _ => cases hbt
  | _ =>
    rw [← eq_of_assignable hbt (fun _ h => by cases h) (fun h => by cases h)]
    exact hab

theorem assignable_antisymm (hab : a.assignable b) (hba : b.assignable a) : a = b := by
  induction b generalizing a with
  | any => exact any_assignable.mp hba
  | list u ih =>
    cases a with
    | list w => exact congrArg list (ih hab hba)
    | any => cases any_assignable.mp hab
    | _ => cases hab
  | _ => exact eq_of_assignable hab (fun _ h => by cases h) (fun h => by cases h)

/-- What a type admits, the types it is assignable to admit too. -/
theorem Admits.assignable (h : a.assignable b) (hv : a.Admits v) : b.Admits v := by
  induction b generalizing a v with
  | void => trivial
  | any => trivial
  | list t ih =>
    cases a with
    | list u =>
      obtain ⟨items, rfl, hitems⟩ := hv
      exact ⟨items, rfl, fun w hw => ih h (hitems w hw)⟩
    | _ => cases h
  | _ =>
    rw [← eq_of_assignable h (fun _ h => by cases h) (fun h => by cases h)]
    exact hv

/-! ### The type of a value -/

/-- A value is admitted by its own type. -/
theorem admits_type (v : Value) : v.type.Admits v := by
  match v with
  | .void => trivial
  | .int n => exact ⟨n, rfl⟩
  | .float x => exact ⟨x, rfl⟩
  | .bool b => exact ⟨b, rfl⟩
  | .string s => exact ⟨s, rfl⟩
  | .list [] => exact ⟨[], rfl, fun w hw => by cases hw⟩
  | .list (v :: rest) =>
    refine ⟨v :: rest, rfl, fun w hw => ?_⟩
    have hw' : w.type.Admits w := admits_type w
    split
    · rename_i hall
      rcases List.mem_cons.mp hw with rfl | hw
      · exact hw'
      · rw [← Value.allOf_eq_true.mp hall w hw]
        exact hw'
    · trivial
termination_by v

/-- A value that passes the check of types at run time is admitted. -/
theorem admits_of_assignable (h : v.type.assignable t) : t.Admits v := (admits_type v).assignable h

/-- The values of a scalar type pass the check of types at run time. -/
theorem Admits.type_eq (hv : t.Admits v) (hlist : ∀ u, t ≠ .list u) (hvoid : t ≠ .void)
    (hany : t ≠ .any) : v.type = t := by
  cases t with
  | void => exact absurd rfl hvoid
  | any => exact absurd rfl hany
  | list u => exact absurd rfl (hlist u)
  | _ =>
    obtain ⟨_, rfl⟩ := hv
    rfl

theorem admitsPiped_type (input : Option Value) :
    AdmitsPiped (input.map Value.type) (input.getD .void) := by
  cases input with
  | none => exact fun t ht => by cases ht
  | some v =>
    intro t ht
    cases ht
    exact admits_type v

end KeyConsole.Console.ValueType
