import KeyConsole.Dispatch.Registry

/-!
# Proofs.Dispatch.FreshOrders: firing orders that are kept

A registry keeps the firing orders it has worked out until its binds change.  Whatever it is asked, it answers
as one that keeps nothing and works the orders out each time, from the binds that are registered then.
-/

namespace KeyConsole.Dispatch

/-- What a registry can be asked. -/
inductive RegistryCall where
  | register (owner : String) (binds : List Bind)
  | unregister (owner : String)
  | handlersFor (function : String)
  | hasHandlers (function : String)
  | tryResolve

/-- What a registry answers. -/
inductive RegistryAnswer where
  /-- The binds are added, or why they are not. -/
  | registered (fault : Option RegistryFault)
  /-- Whether there were binds to remove. -/
  | unregistered (any : Bool)
  | handlers (handlers : List Handler)
  | has (any : Bool)
  /-- The first cycle, if there is one. -/
  | resolved (fault : Option RegistryFault)

namespace RegistryCall

/-- The answer to a call, and the registry behind it. -/
def ask (r : Registry) : RegistryCall → RegistryAnswer × Registry
  | register owner binds =>
    match r.register owner binds with
    | .ok r => (.registered none, r)
    | .error fault => (.registered (some fault), r)
  | unregister owner => (.unregistered (r.hasOwner owner), r.unregister owner)
  | handlersFor function => ((r.handlersFor function).map .handlers id)
  | hasHandlers function => ((r.hasHandlers function).map .has id)
  | tryResolve => (r.tryResolve.map .resolved id)

/-- The registry after some calls. -/
def run (calls : List RegistryCall) (r : Registry) : Registry := calls.foldl (fun r c => (c.ask r).2) r

/-- The answers to some calls, one after the other. -/
def answers : List RegistryCall → Registry → List RegistryAnswer
  | [], _ => []
  | c :: calls, r => (c.ask r).1 :: answers calls (c.ask r).2

/-- The answer to a call where the binds are all that is kept, and the binds behind it. -/
def askAfresh (binds : List OwnedBind) : RegistryCall → RegistryAnswer × List OwnedBind
  | register owner new =>
    if binds.any (·.owner = owner) then (.registered (some (.ownerRegistered owner)), binds)
    else (.registered none, binds ++ new.map fun bind => { owner, bind })
  | unregister owner => (.unregistered (binds.any (·.owner = owner)), binds.filter (·.owner ≠ owner))
  | handlersFor function => (.handlers (Registry.firing { binds } function), binds)
  | hasHandlers function => (.has (!(Registry.firing { binds } function).isEmpty), binds)
  | tryResolve => (.resolved (Registry.tryResolve { binds }).1, binds)

/-- The answers to some calls where the binds are all that is kept. -/
def answersAfresh : List RegistryCall → List OwnedBind → List RegistryAnswer
  | [], _ => []
  | c :: calls, binds => (c.askAfresh binds).1 :: answersAfresh calls (c.askAfresh binds).2

end RegistryCall

namespace Registry

variable {r : Registry} {function : String}

/-- The firing orders that are kept are those of the binds, if they are not known to be out of date. -/
def Fresh (r : Registry) : Prop := r.stale = false → r.resolved = r.functions.map fun f => (f, r.firing f)

/-- A function without binds has no handlers. -/
theorem firing_eq_nil (h : function ∉ r.functions) : r.firing function = [] := by
  have hnone : r.bindsFor function = [] := by
    refine List.filter_eq_nil_iff.mpr fun b hb hfunction => h ?_
    rw [functions, List.mem_eraseDups, ← of_decide_eq_true hfunction]
    exact List.mem_map_of_mem hb
  have hordered : r.ordered function = .ok [] := by
    unfold ordered
    rw [hnone]
    rfl
  unfold firing
  rw [hordered]
  rfl

/-- What is looked up for a function is its firing order. -/
theorem lookup_orders (r : Registry) (function : String) :
    ((r.functions.map fun f => (f, r.firing f)).lookup function).getD [] = r.firing function := by
  by_cases h : function ∈ r.functions
  · suffices ∀ fs : List String, function ∈ fs →
        (fs.map fun f => (f, r.firing f)).lookup function = some (r.firing function) by rw [this _ h]; rfl
    intro fs hfs
    induction fs with
    | nil => cases hfs
    | cons f fs ih =>
      rw [List.map_cons, List.lookup_cons]
      by_cases hf : function = f
      · subst hf
        simp
      · rw [beq_false_of_ne hf]
        exact ih ((List.mem_cons.mp hfs).resolve_left hf)
  · have hnone : (r.functions.map fun f => (f, r.firing f)).lookup function = none := by
      rw [List.lookup_eq_none_iff]
      intro p hp
      obtain ⟨f, hf, rfl⟩ := List.mem_map.mp hp
      rw [bne_iff_ne]
      rintro rfl
      exact h hf
    rw [hnone, firing_eq_nil h]
    rfl

theorem fresh_rebuild (r : Registry) : r.rebuild.Fresh := fun _ => rfl

theorem fresh_refreshed (h : r.Fresh) :
    r.refreshed.Fresh ∧ r.refreshed.stale = false ∧ r.refreshed.binds = r.binds := by
  unfold refreshed
  cases hstale : r.stale with
  | true => exact ⟨fresh_rebuild r, rfl, rfl⟩
  | false => exact ⟨h, hstale, rfl⟩

/-- The handlers answered are those worked out from the binds. -/
theorem handlersFor_fst (h : r.Fresh) (function : String) : (r.handlersFor function).1 = r.firing function := by
  obtain ⟨hfresh, hcurrent, hbinds⟩ := fresh_refreshed h
  have hanswer : (r.handlersFor function).1 = (r.refreshed.resolved.lookup function).getD [] := rfl
  rw [hanswer, hfresh hcurrent, lookup_orders]
  unfold firing ordered bindsFor
  rw [hbinds]

theorem fresh_handlersFor (h : r.Fresh) (function : String) : (r.handlersFor function).2.Fresh :=
  (fresh_refreshed h).1

theorem binds_register {owner : String} {new : List Bind} {r' : Registry} (h : r.register owner new = .ok r') :
    r.hasOwner owner = false ∧ r'.binds = r.binds ++ new.map (OwnedBind.mk owner) ∧ r'.stale = true := by
  unfold register at h
  split at h
  · cases h
  · rename_i hnone
    cases h
    exact ⟨Bool.eq_false_iff.mpr hnone, rfl, rfl⟩

theorem register_eq_error {owner : String} {new : List Bind} {fault : RegistryFault}
    (h : r.register owner new = .error fault) : r.hasOwner owner = true ∧ fault = .ownerRegistered owner := by
  unfold register at h
  split at h
  · rename_i hsome
    cases h
    exact ⟨hsome, rfl⟩
  · cases h

theorem binds_unregister (r : Registry) (owner : String) :
    (r.unregister owner).binds = r.binds.filter (·.owner ≠ owner) := by
  unfold unregister
  split
  · rfl
  · rename_i hnone
    refine (List.filter_eq_self.mpr fun b hb => ?_).symm
    simp only [ne_eq, decide_not, Bool.not_eq_true', decide_eq_false_iff_not]
    rintro rfl
    exact hnone (List.any_eq_true.mpr ⟨b, hb, by simp⟩)

theorem fresh_unregister (h : r.Fresh) (owner : String) : (r.unregister owner).Fresh := by
  unfold unregister
  split
  · exact fun hcurrent => by cases hcurrent
  · exact h

end Registry

namespace RegistryCall

variable {r : Registry}

/-- Every answer is the one worked out afresh, and so are the binds behind it. -/
theorem ask_eq_afresh (h : r.Fresh) (c : RegistryCall) :
    (c.ask r).1 = (c.askAfresh r.binds).1 ∧ (c.ask r).2.binds = (c.askAfresh r.binds).2 ∧ (c.ask r).2.Fresh := by
  cases c with
  | register owner new =>
    simp only [ask, askAfresh]
    cases hregister : r.register owner new with
    | ok r' =>
      obtain ⟨hnone, hbinds, hstale⟩ := Registry.binds_register hregister
      unfold Registry.hasOwner at hnone
      rw [hnone, if_neg Bool.false_ne_true]
      exact ⟨rfl, hbinds, fun hcurrent => absurd (hstale.symm.trans hcurrent) (by decide)⟩
    | error fault =>
      obtain ⟨hsome, rfl⟩ := Registry.register_eq_error hregister
      unfold Registry.hasOwner at hsome
      rw [hsome, if_pos rfl]
      exact ⟨rfl, rfl, h⟩
  | unregister owner =>
    exact ⟨rfl, Registry.binds_unregister r owner, Registry.fresh_unregister h owner⟩
  | handlersFor function =>
    exact ⟨congrArg RegistryAnswer.handlers (Registry.handlersFor_fst h function),
      (Registry.fresh_refreshed h).2.2, Registry.fresh_handlersFor h function⟩
  | hasHandlers function =>
    refine ⟨congrArg RegistryAnswer.has ?_, (Registry.fresh_refreshed h).2.2,
      Registry.fresh_handlersFor h function⟩
    exact congrArg (!List.isEmpty ·) (Registry.handlersFor_fst h function)
  | tryResolve => exact ⟨rfl, rfl, Registry.fresh_rebuild r⟩

theorem fresh_run (calls : List RegistryCall) (h : r.Fresh) : (run calls r).Fresh := by
  induction calls generalizing r with
  | nil => exact h
  | cons c calls ih => exact ih (ask_eq_afresh h c).2.2

theorem answers_eq_afresh (calls : List RegistryCall) (h : r.Fresh) :
    answers calls r = answersAfresh calls r.binds := by
  induction calls generalizing r with
  | nil => rfl
  | cons c calls ih =>
    obtain ⟨hanswer, hbinds, hfresh⟩ := ask_eq_afresh h c
    rw [answers, answersAfresh, hanswer, ih hfresh, hbinds]

theorem fresh_empty : Registry.Fresh {} := fun _ => rfl

/-- The firing orders that are kept are never out of date.  Whatever the calls, a registry answers them as if it
worked everything out each time; a registration that is refused changes neither the binds nor any later answer;
and what is removed with an owner are its binds, while the others stay in their order. -/
theorem kept_orders_are_never_stale (calls : List RegistryCall) :
    answers calls {} = answersAfresh calls [] ∧
      (∀ function, ((run calls {}).handlersFor function).1 = Registry.firing { binds := (run calls {}).binds } function) ∧
      (∀ owner new later fault, (run calls {}).register owner new = .error fault →
        (run (calls ++ [.register owner new]) {}).binds = (run calls {}).binds ∧
          answers later (run (calls ++ [.register owner new]) {}) = answers later (run calls {})) ∧
      ∀ owner, (run (calls ++ [.unregister owner]) {}).binds
        = (run calls {}).binds.filter (·.owner ≠ owner) := by
  have hlast : ∀ c : RegistryCall, run (calls ++ [c]) {} = (c.ask (run calls {})).2 := fun c =>
    List.foldl_append
  refine ⟨answers_eq_afresh calls fresh_empty, fun function => ?_, fun owner new later fault hrefused => ?_,
    fun owner => ?_⟩
  · exact Registry.handlersFor_fst (fresh_run calls fresh_empty) function
  · have hsame : (ask (run calls {}) (.register owner new)).2 = run calls {} := by
      simp only [ask, hrefused]
    rw [hlast, hsame]
    exact ⟨rfl, rfl⟩
  · rw [hlast]
    exact Registry.binds_unregister _ owner

end RegistryCall

end KeyConsole.Dispatch
