import KeyConsole.Proofs.Dispatch.Delivery

/-!
# Proofs.Dispatch.Transitions: rows of transitions

The transitions of a binding lead from state to state.  Each turns the state over, but for those that fire
again what is down already.  They are noted among much else, and behind one to up stands what is passed on.
-/

namespace KeyConsole.Dispatch

/-- Transitions, each from one state to another, that lead from a state to a state.  They turn the state over;
if `again`, a state of down may also be entered again. -/
inductive Way (again : Bool) : BindingState → List (BindingState × BindingState) → BindingState → Prop where
  | stay (s) : Way again s [] s
  | turn {s s' rest t} (h : s ≠ s') (hrest : Way again s' rest t) : Way again s ((s, s') :: rest) t
  | fire {rest t} (h : again = true) (hrest : Way again .down rest t) : Way again .down ((.down, .down) :: rest) t

/-- A binding that is down is brought down again, where that may be. -/
def isRefire (again : Bool) (change : BindingState × BindingState) : Bool :=
  again && decide (change = (.down, .down))

/-- States that are entered one after the other, each by turning the state over. -/
inductive Turns : BindingState → List BindingState → BindingState → Prop where
  | stay (s) : Turns s [] s
  | turn {s s' rest t} (h : s ≠ s') (hrest : Turns s' rest t) : Turns s (s' :: rest) t

namespace Way

variable {again : Bool} {s t u : BindingState} {xs ys : List (BindingState × BindingState)}

theorem nil_inv (h : Way again s [] t) : s = t := by
  cases h
  rfl

/-- The first transition leaves the state at the start, and it is to down if that is up. -/
theorem cons_inv {a b : BindingState} (h : Way again s ((a, b) :: xs) t) :
    a = s ∧ Way again b xs t ∧ (s = .up → b = .down) := by
  cases h with
  | turn hne hrest =>
    refine ⟨rfl, hrest, ?_⟩
    rintro rfl
    cases b with
    | up => exact absurd rfl hne
    | down => rfl
  | fire _ hrest => exact ⟨rfl, hrest, fun _ => rfl⟩

/-- If all transitions are to up but for a last one, then a single one leads from down to up. -/
theorem released_once (h : Way again .down (xs ++ ys) .up) (hups : ∀ c ∈ xs, c.2 = .up) (hlast : ys.length ≤ 1) :
    xs ++ ys = [(.down, .up)] := by
  have hshort : ∀ {s u}, Way again s ys u → s = u ∧ ys = [] ∨ (s = .up → u = .down) ∧ ys = [(s, u)] := by
    intro s u hys
    match ys, hlast with
    | [], _ => exact .inl ⟨hys.nil_inv, rfl⟩
    | [(a, b)], _ =>
      obtain ⟨rfl, hrest, hturn⟩ := hys.cons_inv
      obtain rfl := hrest.nil_inv
      exact .inr ⟨hturn, rfl⟩
  match xs with
  | [] =>
    rcases hshort h with ⟨hsame, -⟩ | ⟨-, hys⟩
    · cases hsame
    · exact hys
  | [(a, b)] =>
    obtain rfl : b = .up := hups (a, b) List.mem_cons_self
    obtain ⟨rfl, hrest, -⟩ := h.cons_inv
    rcases hshort hrest with ⟨-, rfl⟩ | ⟨hturn, -⟩
    · rfl
    · cases hturn rfl
  | (a, b) :: (a', b') :: xs =>
    -- the second one would leave up for up
    obtain rfl : b = .up := hups (a, b) List.mem_cons_self
    obtain rfl : b' = .up := hups (a', b') (by simp)
    obtain ⟨-, hrest, -⟩ := h.cons_inv
    cases hrest.cons_inv.2.2 rfl

/-- If all transitions are to up, then one leads from down to up, if the state has changed, and there is none else. -/
theorem all_up (h : Way again s xs t) (hups : ∀ c ∈ xs, c.2 = .up) : xs = if s = t then [] else [(s, t)] := by
  have hend : ∀ {ys u}, Way again .up ys u → (∀ c ∈ ys, c.2 = .up) → ys = [] ∧ u = .up := by
    intro ys u hys hups
    match ys with
    | [] => exact ⟨rfl, hys.nil_inv.symm⟩
    | (a, b) :: ys =>
      obtain rfl : b = .up := hups (a, b) List.mem_cons_self
      obtain ⟨rfl, -, hturn⟩ := hys.cons_inv
      cases hturn rfl
  match xs with
  | [] => rw [if_pos h.nil_inv]
  | (a, b) :: xs =>
    obtain rfl : b = .up := hups (a, b) List.mem_cons_self
    obtain ⟨rfl, hrest, hturn⟩ := h.cons_inv
    obtain ⟨rfl, rfl⟩ := hend hrest fun c hc => hups c (List.mem_cons_of_mem _ hc)
    rw [if_neg fun hup => nomatch hturn hup]

/-- The last state entered is the one that is reached. -/
theorem getLast?_getD (h : Way again s xs t) : (xs.map (·.2)).getLast?.getD s = t := by
  induction h with
  | stay s => rfl
  | turn _ _ ih | fire _ _ ih =>
    rw [List.map_cons, List.getLast?_cons]
    exact ih

theorem append (h : Way again s xs t) (h' : Way again t ys u) : Way again s (xs ++ ys) u := by
  induction h with
  | stay s => exact h'
  | turn hne _ ih => exact .turn hne (ih h')
  | fire hagain _ ih => exact .fire hagain (ih h')

theorem mono {again' : Bool} (h : Way again s xs t) (hagain : again = true → again' = true) :
    Way again' s xs t := by
  induction h with
  | stay s => exact .stay s
  | turn hne _ ih => exact .turn hne ih
  | fire h _ ih => exact .fire (hagain h) ih

/-- But for what is fired again, the states are turned over. -/
theorem turns (h : Way again s xs t) :
    Turns s ((xs.filter fun c => !isRefire again c).map (·.2)) t := by
  induction h with
  | stay s => exact .stay s
  | @turn s s' rest t hne _ ih =>
    have hkeep : (!isRefire again (s, s')) = true := by
      cases s <;> cases s' <;> simp [isRefire] at hne ⊢
    simp only [List.filter_cons, hkeep, if_true, List.map_cons]
    exact .turn hne ih
  | fire hagain _ ih =>
    rw [List.filter_cons_of_neg (by simp [isRefire, hagain])]
    exact ih

end Way

namespace Turns

variable {s t u : BindingState} {xs ys : List BindingState}

theorem append (h : Turns s xs t) (h' : Turns t ys u) : Turns s (xs ++ ys) u := by
  induction h with
  | stay s => exact h'
  | turn hne _ ih => exact .turn hne (ih h')

/-- The last state entered is the one that is reached. -/
theorem getLast?_getD (h : Turns s xs t) : xs.getLast?.getD s = t := by
  induction h with
  | stay s => rfl
  | @turn s s' rest t _ _ ih =>
    rw [List.getLast?_cons]
    exact ih

/-- From up the states are down, up, down, and so on. -/
theorem alternate (h : Turns s xs t) (n : Nat) (x : BindingState) (hx : xs[n]? = some x) :
    x = if (n % 2 = 0) = (s = .up) then .down else .up := by
  induction h generalizing n with
  | stay s => cases hx
  | @turn s s' rest t hne _ ih =>
    cases n with
    | zero =>
      obtain rfl : s' = x := by simpa using hx
      cases s <;> cases s' <;> simp at hne ⊢
    | succ n =>
      rw [ih n (by simpa using hx)]
      have hparity : (n + 1) % 2 = 0 ↔ ¬n % 2 = 0 := by omega
      cases s <;> cases s' <;> simp [hparity] at hne ⊢

end Turns

/-! ### What has been told -/

/-- The transitions of a binding among what has been told. -/
def changes (id : Nat) (ns : List Notice) : List (BindingState × BindingState) :=
  ns.filterMap fun
    | .transition other before after => if other = id then some (before, after) else none
    | _ => none

section changes

variable {id : Nat} {ns : List Notice}

theorem changes_append (id : Nat) (ns ns' : List Notice) :
    changes id (ns ++ ns') = changes id ns ++ changes id ns' := List.filterMap_append

theorem changes_transition (id other : Nat) (before after : BindingState) (ns : List Notice) :
    changes id (.transition other before after :: ns)
      = if other = id then (before, after) :: changes id ns else changes id ns := by
  unfold changes
  rw [List.filterMap_cons]
  split <;> simp_all

/-- A transition of a binding stands somewhere among what has been told. -/
theorem exists_of_mem_changes {before after : BindingState} (h : (before, after) ∈ changes id ns) :
    ∃ told rest, ns = told ++ .transition id before after :: rest := by
  obtain ⟨n, hn, hchange⟩ := List.mem_filterMap.mp h
  cases n with
  | transition other x y =>
    simp only [Option.ite_none_right_eq_some, Option.some.injEq, Prod.mk.injEq] at hchange
    obtain ⟨rfl, rfl, rfl⟩ := hchange
    exact List.append_of_mem hn
  | _ => cases hchange

theorem changes_eq_nil (h : ∀ n ∈ ns, ∀ before after, n ≠ .transition id before after) :
    changes id ns = [] := by
  refine List.filterMap_eq_nil_iff.mpr fun n hn => ?_
  cases n with
  | transition other before after =>
    refine if_neg ?_
    rintro rfl
    exact h _ hn before after rfl
  | _ => rfl

theorem changes_relayed (h : ∀ n ∈ ns, n.isRelay) : changes id ns = [] := by
  refine changes_eq_nil fun n hn before after heq => ?_
  have hrelay := h n hn
  rw [heq] at hrelay
  cases hrelay

end changes

/-- The change is passed on, once the user interface has seen it. -/
def PassedOn (change : Change) (ns : List Notice) : Prop :=
  ∃ shown rest, ns = shown ++ .passed change :: rest ∧ (shown = [] ∨ shown = [.shown change])

/-- Whatever goes up is passed on next, as a change that is related to what has been told before. -/
def UpsPassed (Right : List Notice → Nat → Change → Prop) (ns : List Notice) : Prop :=
  ∀ told id before rest, ns = told ++ .transition id before .up :: rest →
    ∃ change, Right told id change ∧ PassedOn change rest

theorem PassedOn.append {change : Change} {ns : List Notice} (h : PassedOn change ns) (ns' : List Notice) :
    PassedOn change (ns ++ ns') := by
  obtain ⟨shown, rest, rfl, hshown⟩ := h
  exact ⟨shown, rest ++ ns', by simp, hshown⟩

namespace UpsPassed

variable {Right Right' : List Notice → Nat → Change → Prop} {ns ns' : List Notice}

theorem of_changes (h : ∀ id, changes id ns = []) : UpsPassed Right ns := by
  rintro told id before rest rfl
  have hnil := h id
  rw [changes_append, changes_transition, if_pos rfl] at hnil
  simp at hnil

theorem append (h : UpsPassed Right ns) (h' : UpsPassed Right' ns')
    (hright : ∀ told id change, Right' told id change → Right (ns ++ told) id change) :
    UpsPassed Right (ns ++ ns') := by
  intro told id before rest heq
  rcases List.append_eq_append_iff.mp heq with ⟨told', rfl, hns'⟩ | ⟨last, rfl, hlast⟩
  · obtain ⟨change, hchange, hpassed⟩ := h' told' id before rest hns'
    exact ⟨change, hright _ _ _ hchange, hpassed⟩
  · cases last with
    | nil =>
      obtain ⟨change, hchange, hpassed⟩ := h' [] id before rest hlast.symm
      exact ⟨change, by simpa using hright _ _ _ hchange, hpassed⟩
    | cons n last =>
      obtain ⟨rfl, rfl⟩ := List.cons.inj hlast
      obtain ⟨change, hchange, hpassed⟩ := h told id before last rfl
      exact ⟨change, hchange, hpassed.append ns'⟩

end UpsPassed

end KeyConsole.Dispatch
