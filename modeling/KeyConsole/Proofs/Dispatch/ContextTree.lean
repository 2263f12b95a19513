import KeyConsole.Dispatch.Context
import Mathlib.Data.List.Basic
import Mathlib.Tactic.SplitIfs

/-!
# Proofs.Dispatch.ContextTree: the tree of contexts and its walks

Contexts are planted one behind the other, each under a parent that stands before it.  So a walk to the root
never gets longer than the list, and it stays the same when a context is planted, or one that is no parent is
taken out.
-/

namespace KeyConsole.Dispatch

/-- Contexts with distinct names, each of them behind its parent. -/
inductive Planted : List Context → Prop
  | nil : Planted []
  | snoc {cs : List Context} {c : Context} (h : Planted cs) (fresh : ∀ x ∈ cs, x.name ≠ c.name)
      (rooted : ∀ p, c.parent = some p → ∃ x ∈ cs, x.name = p) : Planted (cs ++ [c])

namespace Planted

variable {cs : List Context}

theorem parent_mem (h : Planted cs) :
    ∀ x ∈ cs, ∀ p, x.parent = some p → ∃ y ∈ cs, y.name = p := by
  induction h with
  | nil => simp
  | @snoc cs c h fresh rooted ih =>
    intro x hx p hp
    rcases List.mem_append.mp hx with hx | hx
    · obtain ⟨y, hy, hyp⟩ := ih x hx p hp
      exact ⟨y, List.mem_append_left _ hy, hyp⟩
    · obtain rfl : x = c := by simpa using hx
      obtain ⟨y, hy, hyp⟩ := rooted p hp
      exact ⟨y, List.mem_append_left _ hy, hyp⟩

/-- What keeps names and parents keeps the tree. -/
theorem map (h : Planted cs) {f : Context → Context} (hname : ∀ c, (f c).name = c.name)
    (hparent : ∀ c, (f c).parent = c.parent) : Planted (cs.map f) := by
  induction h with
  | nil => exact .nil
  | @snoc cs c h fresh rooted ih =>
    rw [List.map_append]
    refine .snoc ih ?_ ?_
    · intro x hx
      obtain ⟨y, hy, rfl⟩ := List.mem_map.mp hx
      rw [hname, hname]
      exact fresh y hy
    · intro p hp
      rw [hparent] at hp
      obtain ⟨y, hy, hyp⟩ := rooted p hp
      exact ⟨f y, List.mem_map_of_mem hy, (hname y).trans hyp⟩

/-- A context that is no parent can be taken out. -/
theorem without (h : Planted cs) {name : String} (hleaf : ∀ x ∈ cs, x.parent ≠ some name) :
    Planted (cs.filter (·.name ≠ name)) := by
  induction h with
  | nil => exact .nil
  | @snoc cs c h fresh rooted ih =>
    have ih := ih fun x hx => hleaf x (List.mem_append_left _ hx)
    rw [List.filter_append]
    by_cases hc : c.name = name
    · simpa [hc] using ih
    · have hkept : [c].filter (·.name ≠ name) = [c] := by simp [hc]
      rw [hkept]
      refine .snoc ih (fun x hx => fresh x (List.mem_filter.mp hx).1) ?_
      intro p hp
      obtain ⟨x, hx, hxp⟩ := rooted p hp
      have hne : x.name ≠ name := by
        intro heq
        exact hleaf c (by simp) (by rw [hp, ← hxp, heq])
      exact ⟨x, List.mem_filter.mpr ⟨hx, by simpa using hne⟩, hxp⟩

end Planted

theorem Context.name_add (c : Context) (function : String) : (c.add function).name = c.name := by
  unfold Context.add
  split <;> rfl

theorem Context.parent_add (c : Context) (function : String) : (c.add function).parent = c.parent := by
  unfold Context.add
  split <;> rfl

namespace Contexts

variable {cs : Contexts} {name : String}

/-- The contexts are planted, and the active one is there. -/
structure Sound (cs : Contexts) : Prop where
  planted : Planted cs.contexts
  active_mem : ∀ a, cs.active = some a → cs.has a

theorem get?_mem {c : Context} (h : cs.get? name = some c) : c ∈ cs.contexts ∧ c.name = name := by
  unfold get? at h
  exact ⟨List.mem_of_find?_eq_some h, by simpa using List.find?_some h⟩

theorem has_iff : cs.has name ↔ ∃ c ∈ cs.contexts, c.name = name := by
  simp [has, get?]

/-! ### Walks -/

theorem ancestryUpTo_succ_none {n : Nat} (h : cs.get? name = none) : cs.ancestryUpTo (n + 1) name = [] := by
  rw [ancestryUpTo, h]

theorem ancestryUpTo_succ_some {n : Nat} {c : Context} (h : cs.get? name = some c) :
    cs.ancestryUpTo (n + 1) name = c :: c.parent.elim [] (cs.ancestryUpTo n) := by
  rw [ancestryUpTo, h]

/-- A walk depends only on the contexts that it finds. -/
theorem ancestryUpTo_congr {ds : Contexts} {P : String → Prop} (hget : ∀ m, P m → cs.get? m = ds.get? m)
    (hparent : ∀ m c p, P m → cs.get? m = some c → c.parent = some p → P p) (n : Nat) (hname : P name) :
    cs.ancestryUpTo n name = ds.ancestryUpTo n name := by
  induction n generalizing name with
  | zero => rfl
  | succ n ih =>
    have hds := hget name hname
    cases hc : cs.get? name with
    | none => rw [ancestryUpTo_succ_none hc, ancestryUpTo_succ_none (hds ▸ hc)]
    | some c =>
      rw [ancestryUpTo_succ_some hc, ancestryUpTo_succ_some (hds ▸ hc)]
      cases hp : c.parent with
      | none => simp
      | some p => simp [ih (hparent name c p hname hc hp)]

/-- A walk from another context does not see one that is planted last. -/
theorem ancestryUpTo_snoc {xs : List Context} {c : Context} {a : Option String} (h : Planted (xs ++ [c]))
    (hname : name ≠ c.name) (n : Nat) :
    ancestryUpTo ⟨xs ++ [c], a⟩ n name = ancestryUpTo ⟨xs, a⟩ n name := by
  refine ancestryUpTo_congr (P := (· ≠ c.name)) ?_ ?_ n hname
  · intro m hm
    have hc : ¬c.name = m := fun heq => hm heq.symm
    simp [get?, List.find?_append, hc]
  · intro m x p hm hx hp
    obtain ⟨hmem, rfl⟩ := get?_mem hx
    generalize hys : xs ++ [c] = ys at h hmem
    cases h with
    | nil => simp at hys
    | @snoc zs d h fresh rooted =>
      obtain ⟨rfl, hd⟩ := List.append_inj' hys rfl
      obtain rfl : c = d := by simpa using hd
      have hxs : x ∈ xs := by
        rcases List.mem_append.mp hmem with hmem | hmem
        · exact hmem
        · obtain rfl : x = c := by simpa using hmem
          exact absurd rfl hm
      obtain ⟨y, hy, rfl⟩ := h.parent_mem x hxs p hp
      exact fresh y hy

/-- The context planted last is the one of its name. -/
theorem get?_snoc {xs : List Context} {c : Context} {a : Option String} (fresh : ∀ x ∈ xs, x.name ≠ c.name) :
    get? ⟨xs ++ [c], a⟩ c.name = some c := by
  have hnone : xs.find? (·.name = c.name) = none := by
    rw [List.find?_eq_none]
    intro x hx
    simpa using fresh x hx
  unfold get?
  rw [List.find?_append, hnone]
  simp

/-- A walk has ended when it is as long as the list. -/
theorem ancestryUpTo_of_length_le {xs : List Context} {a : Option String} (h : Planted xs) (n : Nat)
    (hn : xs.length ≤ n) : ancestryUpTo ⟨xs, a⟩ n name = ancestryUpTo ⟨xs, a⟩ xs.length name := by
  induction h generalizing n name with
  | nil =>
    cases n with
    | zero => rfl
    | succ n => simp [ancestryUpTo, get?]
  | @snoc xs c h fresh rooted ih =>
    have hplanted : Planted (xs ++ [c]) := .snoc h fresh rooted
    rw [List.length_append, List.length_singleton] at hn ⊢
    by_cases hname : name = c.name
    · obtain ⟨n, rfl⟩ : ∃ m, n = m + 1 := ⟨n - 1, by omega⟩
      have hfind : get? ⟨xs ++ [c], a⟩ name = some c := hname ▸ get?_snoc fresh
      rw [ancestryUpTo_succ_some hfind, ancestryUpTo_succ_some hfind]
      cases hp : c.parent with
      | none => simp
      | some p =>
        obtain ⟨y, hy, rfl⟩ := rooted p hp
        have hne : y.name ≠ c.name := fresh y hy
        simp only [Option.elim_some]
        rw [ancestryUpTo_snoc hplanted hne, ancestryUpTo_snoc hplanted hne, ih n (by omega)]
    · rw [ancestryUpTo_snoc hplanted hname, ancestryUpTo_snoc hplanted hname, ih n (by omega),
        ih (xs.length + 1) (by omega)]

/-- The active context is of no matter to a walk. -/
theorem ancestry_active (xs : List Context) (a b : Option String) (name : String) :
    ancestry ⟨xs, a⟩ name = ancestry ⟨xs, b⟩ name := by
  have hget : ∀ m, True → get? ⟨xs, a⟩ m = get? ⟨xs, b⟩ m := fun _ _ => rfl
  exact ancestryUpTo_congr hget (fun _ _ _ _ _ _ => trivial) xs.length trivial

theorem ancestry_snoc {xs : List Context} {c : Context} {a : Option String} (h : Planted (xs ++ [c]))
    (hxs : Planted xs) (hname : name ≠ c.name) :
    ancestry ⟨xs ++ [c], a⟩ name = ancestry ⟨xs, a⟩ name := by
  unfold ancestry
  rw [ancestryUpTo_snoc h hname, ancestryUpTo_of_length_le hxs]
  simp

/-- Taking out a context that is no parent leaves the walks from all others as they are. -/
theorem ancestry_without {xs : List Context} {a : Option String} {gone : String} (h : Planted xs)
    (hleaf : ∀ x ∈ xs, x.parent ≠ some gone) (hname : name ≠ gone) :
    ancestry ⟨xs.filter (·.name ≠ gone), a⟩ name = ancestry ⟨xs, a⟩ name := by
  have hlen : (xs.filter (·.name ≠ gone)).length ≤ xs.length := List.length_filter_le _ _
  unfold ancestry
  rw [← ancestryUpTo_of_length_le (h.without hleaf) xs.length hlen]
  refine (ancestryUpTo_congr (P := (· ≠ gone)) ?_ ?_ xs.length hname).symm
  · intro m hm
    simp only [get?, List.find?_filter]
    congr 1
    funext c
    by_cases hc : c.name = m <;> simp [hc, hm]
  · intro m c p _ hc hp heq
    exact hleaf c (get?_mem hc).1 (by rw [hp, heq])

/-- Changing the functions of a context changes them along every walk. -/
theorem ancestry_update {f : Context → Context} (hname : ∀ c, (f c).name = c.name)
    (hparent : ∀ c, (f c).parent = c.parent) (m : String) :
    (cs.update m f).ancestry name
      = (cs.ancestry name).map fun c => if c.name = m then f c else c := by
  have hlen : (cs.update m f).contexts.length = cs.contexts.length := by simp [update]
  unfold ancestry
  rw [hlen]
  generalize cs.contexts.length = n
  induction n generalizing name with
  | zero => rfl
  | succ n ih =>
    have hget : (cs.update m f).get? name
        = (cs.get? name).map fun c => if c.name = m then f c else c := by
      simp only [get?, update, List.find?_map]
      congr 2
      funext c
      by_cases hc : c.name = m <;> simp [hc, hname]
    cases hc : cs.get? name with
    | none =>
      rw [ancestryUpTo_succ_none hc, ancestryUpTo_succ_none (by rw [hget, hc]; rfl), List.map_nil]
    | some c =>
      have hp : (if c.name = m then f c else c).parent = c.parent := by
        by_cases hm : c.name = m <;> simp [hm, hparent]
      rw [ancestryUpTo_succ_some hc, ancestryUpTo_succ_some (by rw [hget, hc]; rfl), hp, List.map_cons]
      cases hcp : c.parent with
      | none => simp
      | some p => simp [ih]

/-! ### Live functions -/

theorem isLiveIn_iff {function : String} :
    cs.isLiveIn name function ↔ ∃ c ∈ cs.ancestry name, function ∈ c.functions := by
  simp [isLiveIn, Context.declares]

/-- The functions of a context are those that are live in it. -/
theorem mem_functionsOf {function : String} :
    function ∈ cs.functionsOf name ↔ cs.isLiveIn name function := by
  rw [isLiveIn_iff]
  simp [functionsOf]

theorem isLive_iff {function : String} :
    cs.isLive function ↔ ∃ a, cs.active = some a ∧ cs.isLiveIn a function := by
  unfold isLive
  cases cs.active <;> simp

/-! ### Changes of the tree -/

variable {ds : Contexts}

/-- What a successful creation does. -/
theorem create_eq_ok {parent : Option String} (h : cs.create name parent = .ok ds) :
    ds = cs.extended name parent ∧ ¬cs.has name ∧ ∀ p, parent = some p → cs.has p := by
  unfold create at h
  split_ifs at h with hname
  cases parent with
  | none => exact ⟨(Except.ok.inj h).symm, hname, by simp⟩
  | some p =>
    simp only at h
    split_ifs at h with hp
    exact ⟨(Except.ok.inj h).symm, hname, by rintro q ⟨⟩; exact hp⟩

/-- What a successful removal does. -/
theorem remove_eq_ok (h : cs.remove name = .ok ds) :
    ds = { cs with contexts := cs.contexts.filter (·.name ≠ name) } ∧
      (∀ x ∈ cs.contexts, x.parent ≠ some name) ∧ cs.active ≠ some name := by
  unfold remove at h
  split_ifs at h with hname huse
  simp only [Bool.or_eq_true, List.any_eq_true, decide_eq_true_eq, not_or, not_exists, not_and] at huse
  exact ⟨(Except.ok.inj h).symm, huse.1, huse.2⟩

/-- What a successful switch of the active context does. -/
theorem setActive_eq_ok {change : Option ContextChange} (h : cs.setActive name = .ok (change, ds)) :
    cs.has name ∧ ((cs.active = some name ∧ change = none ∧ ds = cs) ∨
      (cs.active ≠ some name ∧ change = some ⟨cs.active, name⟩ ∧ ds = { cs with active := some name })) := by
  unfold setActive at h
  split_ifs at h with hname hactive
  · obtain ⟨rfl, rfl⟩ := Prod.mk.inj (Except.ok.inj h)
    exact ⟨by simpa using hname, .inl ⟨hactive, rfl, rfl⟩⟩
  · obtain ⟨rfl, rfl⟩ := Prod.mk.inj (Except.ok.inj h)
    exact ⟨by simpa using hname, .inr ⟨hactive, rfl, rfl⟩⟩

namespace Sound

theorem planted_extended {parent : Option String} (hs : cs.Sound) (hname : ¬cs.has name)
    (hparent : ∀ p, parent = some p → cs.has p) : Planted (cs.extended name parent).contexts := by
  refine .snoc hs.planted ?_ ?_
  · intro x hx heq
    exact hname (has_iff.mpr ⟨x, hx, heq⟩)
  · intro p hp
    exact has_iff.mp (hparent p hp)

theorem create {parent : Option String} (hs : cs.Sound) (h : cs.create name parent = .ok ds) : ds.Sound := by
  obtain ⟨rfl, hname, hparent⟩ := create_eq_ok h
  refine ⟨hs.planted_extended hname hparent, ?_⟩
  intro a ha
  obtain ⟨x, hx, hxa⟩ := has_iff.mp (hs.active_mem a ha)
  exact has_iff.mpr ⟨x, List.mem_append_left _ hx, hxa⟩

theorem remove (hs : cs.Sound) (h : cs.remove name = .ok ds) : ds.Sound := by
  obtain ⟨rfl, hleaf, hactive⟩ := remove_eq_ok h
  refine ⟨hs.planted.without hleaf, ?_⟩
  intro a ha
  obtain ⟨x, hx, rfl⟩ := has_iff.mp (hs.active_mem a ha)
  have hne : x.name ≠ name := by
    intro heq
    exact hactive (heq ▸ ha)
  exact has_iff.mpr ⟨x, List.mem_filter.mpr ⟨hx, by simpa using hne⟩, rfl⟩

theorem update {f : Context → Context} (hs : cs.Sound) (hname : ∀ c, (f c).name = c.name)
    (hparent : ∀ c, (f c).parent = c.parent) : (cs.update name f).Sound := by
  have hname' : ∀ c : Context, (if c.name = name then f c else c).name = c.name := by
    intro c
    by_cases hc : c.name = name <;> simp [hc, hname]
  refine ⟨hs.planted.map hname' ?_, ?_⟩
  · intro c
    by_cases hc : c.name = name <;> simp [hc, hparent]
  · intro a ha
    obtain ⟨x, hx, hxa⟩ := has_iff.mp (hs.active_mem a ha)
    exact has_iff.mpr ⟨_, List.mem_map_of_mem hx, (hname' x).trans hxa⟩

theorem setActive {change : Option ContextChange} (hs : cs.Sound)
    (h : cs.setActive name = .ok (change, ds)) : ds.Sound := by
  obtain ⟨hname, ⟨-, -, rfl⟩ | ⟨-, -, rfl⟩⟩ := setActive_eq_ok h
  · exact hs
  · exact ⟨hs.planted, by rintro a ⟨⟩; exact hname⟩

/-- A new context is of no matter to what is live. -/
theorem isLive_create {parent : Option String} (hs : cs.Sound) (h : cs.create name parent = .ok ds)
    (function : String) : ds.isLive function = cs.isLive function := by
  obtain ⟨rfl, hname, hparent⟩ := create_eq_ok h
  unfold isLive extended
  cases ha : cs.active with
  | none => rfl
  | some a =>
    have hne : a ≠ name := fun heq => hname (heq ▸ hs.active_mem a ha)
    simp only [Option.any_some, isLiveIn]
    rw [ancestry_snoc (hs.planted_extended hname hparent) hs.planted hne,
      ancestry_active cs.contexts (some a) cs.active a]

/-- A context that can be removed is of no matter to what is live. -/
theorem isLive_remove (hs : cs.Sound) (h : cs.remove name = .ok ds) (function : String) :
    ds.isLive function = cs.isLive function := by
  obtain ⟨rfl, hleaf, hactive⟩ := remove_eq_ok h
  unfold isLive
  cases ha : cs.active with
  | none => rfl
  | some a =>
    have hne : a ≠ name := fun heq => hactive (heq ▸ ha)
    simp only [Option.any_some, isLiveIn]
    rw [ancestry_without hs.planted hleaf hne, ancestry_active cs.contexts (some a) cs.active a]

end Sound

/-- Declaring a function takes none away. -/
theorem isLive_addFunction {function other : String} (h : cs.isLive function) :
    (cs.addFunction name other).isLive function := by
  obtain ⟨a, ha, hlive⟩ := isLive_iff.mp h
  obtain ⟨c, hc, hfunction⟩ := isLiveIn_iff.mp hlive
  refine isLive_iff.mpr ⟨a, ha, isLiveIn_iff.mpr ?_⟩
  unfold addFunction
  rw [ancestry_update (Context.name_add · other) (Context.parent_add · other)]
  refine ⟨_, List.mem_map_of_mem hc, ?_⟩
  by_cases hcn : c.name = name
  · rw [if_pos hcn]
    unfold Context.add
    split
    · exact hfunction
    · exact List.mem_append_left _ hfunction
  · rwa [if_neg hcn]

end Contexts

end KeyConsole.Dispatch
