import KeyConsole.Proofs.Dispatch.ContextTree

/-!
# Proofs.Dispatch.ContextHistory: the tree of contexts after any calls

Whatever is created, removed, made active, declared or withdrawn, and in whatever order: no parent is missing, and
the ancestry of a context is a walk that goes from parent to parent, meets no context twice and ends at a root.  The
bound on the length of a walk is never met.
-/

namespace KeyConsole.Dispatch

namespace Contexts

variable {cs : Contexts} {name : String}

/-- The contexts in a row are met on the way from a name to a root: each names the next one as its parent, and the
last has no parent. -/
inductive IsWalk (cs : Contexts) : (name : String) → List Context → Prop where
  | root {name : String} {c : Context} (found : cs.get? name = some c) (root : c.parent = none) :
      IsWalk cs name [c]
  | up {name p : String} {c : Context} {above : List Context} (found : cs.get? name = some c)
      (parent : c.parent = some p) (walk : IsWalk cs p above) : IsWalk cs name (c :: above)

/-- A walk stays one when a context is planted. -/
theorem IsWalk.snoc {xs walk : List Context} {c : Context} {a : Option String} (h : IsWalk ⟨xs, a⟩ name walk) :
    IsWalk ⟨xs ++ [c], a⟩ name walk := by
  have hfound : ∀ {m x}, get? ⟨xs, a⟩ m = some x → get? ⟨xs ++ [c], a⟩ m = some x := by
    intro m x hx
    unfold get? at hx ⊢
    rw [List.find?_append, hx]
    rfl
  induction h with
  | root found root => exact .root (hfound found) root
  | up found parent walk ih => exact .up (hfound found) parent ih

/-- The walk from the context planted last goes on from its parent as before. -/
theorem ancestry_snoc_self {xs : List Context} {c : Context} {a : Option String} (h : Planted xs)
    (fresh : ∀ x ∈ xs, x.name ≠ c.name) (rooted : ∀ p, c.parent = some p → ∃ x ∈ xs, x.name = p) :
    ancestry ⟨xs ++ [c], a⟩ c.name = c :: c.parent.elim [] (ancestry ⟨xs, a⟩) := by
  have hlength : (xs ++ [c]).length = xs.length + 1 := by simp
  unfold ancestry
  dsimp only
  rw [hlength, ancestryUpTo_succ_some (get?_snoc fresh)]
  cases hparent : c.parent with
  | none => rfl
  | some p =>
    obtain ⟨x, hx, rfl⟩ := rooted p hparent
    simp only [Option.elim_some]
    rw [ancestryUpTo_snoc (.snoc h fresh rooted) (fresh x hx)]

/-- The ancestry of a context is its walk to a root, and meets no name twice. -/
theorem isWalk_ancestry {xs : List Context} {a : Option String} (h : Planted xs) (hname : ∃ c ∈ xs, c.name = name) :
    IsWalk ⟨xs, a⟩ name (ancestry ⟨xs, a⟩ name) ∧ ((ancestry ⟨xs, a⟩ name).map (·.name)).Nodup ∧
      ∀ c ∈ ancestry ⟨xs, a⟩ name, c ∈ xs := by
  induction h generalizing name with
  | nil =>
    obtain ⟨c, hc, -⟩ := hname
    exact (List.not_mem_nil hc).elim
  | @snoc xs c h fresh rooted ih =>
    by_cases hself : name = c.name
    · subst hself
      rw [ancestry_snoc_self h fresh rooted]
      cases hparent : c.parent with
      | none =>
        refine ⟨.root (get?_snoc fresh) hparent, by simp, fun x hx => ?_⟩
        rw [List.mem_singleton.mp hx]
        exact List.mem_append_right _ List.mem_cons_self
      | some p =>
        obtain ⟨hwalk, hnodup, hmem⟩ := ih (rooted p hparent)
        refine ⟨.up (get?_snoc fresh) hparent hwalk.snoc, ?_, fun x hx => ?_⟩
        · refine List.nodup_cons.mpr ⟨fun hc => ?_, hnodup⟩
          obtain ⟨x, hx, hxc⟩ := List.mem_map.mp hc
          exact fresh x (hmem x hx) hxc
        · rcases List.mem_cons.mp hx with rfl | hx
          · exact List.mem_append_right _ List.mem_cons_self
          · exact List.mem_append_left _ (hmem x hx)
    · obtain ⟨x, hx, hxname⟩ := hname
      have hx : x ∈ xs := by
        rcases List.mem_append.mp hx with hx | hx
        · exact hx
        · rw [List.mem_singleton.mp hx] at hxname
          exact absurd hxname.symm hself
      obtain ⟨hwalk, hnodup, hmem⟩ := ih ⟨x, hx, hxname⟩
      rw [ancestry_snoc (.snoc h fresh rooted) h hself]
      exact ⟨hwalk.snoc, hnodup, fun y hy => List.mem_append_left _ (hmem y hy)⟩

end Contexts

/-- What can be asked of the contexts. -/
inductive ContextCall where
  | create (name : String) (parent : Option String)
  | remove (name : String)
  | setActive (name : String)
  | addFunction (context function : String)
  | removeFunction (context function : String)
  deriving DecidableEq, Repr

namespace ContextCall

/-- The contexts after the call, or why it is refused. -/
def ask (cs : Contexts) : ContextCall → Except ContextFault Contexts
  | create name parent => cs.create name parent
  | remove name => cs.remove name
  | setActive name => (cs.setActive name).map (·.2)
  | addFunction context function => .ok (cs.addFunction context function)
  | removeFunction context function => .ok (cs.removeFunction context function)

/-- The contexts after the call, which stay if it is refused. -/
def apply (cs : Contexts) (call : ContextCall) : Contexts := (call.ask cs).toOption.getD cs

/-- The contexts after some calls. -/
def run (calls : List ContextCall) (cs : Contexts) : Contexts := calls.foldl apply cs

variable {cs ds : Contexts}

theorem apply_error {call : ContextCall} {fault : ContextFault} (h : call.ask cs = .error fault) :
    call.apply cs = cs := by
  unfold apply
  rw [h]
  rfl

/-- A call that is accepted leads to what it answers. -/
theorem apply_ok {call : ContextCall} (h : call.ask cs = .ok ds) : call.apply cs = ds := by
  unfold apply
  rw [h]
  rfl

theorem sound_ask {call : ContextCall} (hs : cs.Sound) (h : call.ask cs = .ok ds) : ds.Sound := by
  cases call with
  | create name parent => exact hs.create h
  | remove name => exact hs.remove h
  | setActive name =>
    simp only [ask] at h
    cases hactive : cs.setActive name with
    | error fault =>
      rw [hactive] at h
      cases h
    | ok result =>
      rw [hactive] at h
      cases h
      exact hs.setActive hactive
  | addFunction context function =>
    cases h
    exact hs.update (fun c => c.name_add function) fun c => c.parent_add function
  | removeFunction context function =>
    cases h
    exact hs.update (fun _ => rfl) fun _ => rfl

theorem sound_apply (hs : cs.Sound) (call : ContextCall) : (call.apply cs).Sound := by
  cases h : call.ask cs with
  | error fault =>
    rw [apply_error h]
    exact hs
  | ok ds =>
    rw [apply_ok h]
    exact sound_ask hs h

theorem sound_run (calls : List ContextCall) (hs : cs.Sound) : (run calls cs).Sound := by
  induction calls generalizing cs with
  | nil => exact hs
  | cons call calls ih => exact ih (sound_apply hs call)

theorem sound_none : Contexts.Sound {} := ⟨.nil, fun a ha => by cases ha⟩

/-- The tree of contexts is sound after any calls.  Every parent and the active context are there; the ancestry of a
context is its walk from parent to parent to a root, without a context met twice; the functions live in a context are
those declared along this walk, and the live ones are those of the active context.  A call that is refused changes
nothing, and a context that is removed leaves the ancestries of all others as they are. -/
theorem context_tree_stays_sound (calls : List ContextCall) :
    (∀ c ∈ (run calls {}).contexts, ∀ p, c.parent = some p → (run calls {}).has p) ∧
      (∀ a, (run calls {}).active = some a → (run calls {}).has a) ∧
      (∀ name, (run calls {}).has name → (run calls {}).IsWalk name ((run calls {}).ancestry name) ∧
        (((run calls {}).ancestry name).map (·.name)).Nodup) ∧
      (∀ name function, (run calls {}).isLiveIn name function ↔ function ∈ (run calls {}).functionsOf name) ∧
      (∀ name function, function ∈ (run calls {}).functionsOf name ↔
        ∃ c ∈ (run calls {}).ancestry name, function ∈ c.functions) ∧
      (∀ function, (run calls {}).isLive function ↔
        ∃ a, (run calls {}).active = some a ∧ function ∈ (run calls {}).functionsOf a) ∧
      (∀ call fault, ask (run calls {}) call = .error fault → run (calls ++ [call]) {} = run calls {}) ∧
      ∀ name ds, (run calls {}).remove name = .ok ds → run (calls ++ [.remove name]) {} = ds ∧
        ∀ other, other ≠ name → ds.ancestry other = (run calls {}).ancestry other := by
  have hlast : ∀ call : ContextCall, run (calls ++ [call]) {} = call.apply (run calls {}) := fun call =>
    List.foldl_append
  have hs : (run calls {}).Sound := sound_run calls sound_none
  generalize run calls {} = cs at hs hlast ⊢
  refine ⟨?parents, hs.active_mem, ?walks, ?hierarchy, ?declared, ?active, ?refused, ?removed⟩
  case parents =>
    intro c hc p hp
    exact Contexts.has_iff.mpr (hs.planted.parent_mem c hc p hp)
  case walks =>
    intro name hname
    obtain ⟨hwalk, hnodup, -⟩ := Contexts.isWalk_ancestry (a := cs.active) hs.planted (Contexts.has_iff.mp hname)
    exact ⟨hwalk, hnodup⟩
  case hierarchy => exact fun name function => Contexts.mem_functionsOf.symm
  case declared => exact fun name function => Contexts.mem_functionsOf.trans Contexts.isLiveIn_iff
  case active =>
    intro function
    rw [Contexts.isLive_iff]
    simp only [Contexts.mem_functionsOf]
  case refused =>
    intro call fault h
    rw [hlast, apply_error h]
  case removed =>
    intro name ds h
    refine ⟨(hlast _).trans (apply_ok h), fun other hother => ?_⟩
    obtain ⟨rfl, hleaf, -⟩ := Contexts.remove_eq_ok h
    exact Contexts.ancestry_without (a := cs.active) hs.planted hleaf hother

end ContextCall

end KeyConsole.Dispatch
