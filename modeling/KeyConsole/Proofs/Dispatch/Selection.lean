import KeyConsole.Proofs.Dispatch.KeyEvents
import KeyConsole.Proofs.Dispatch.Neighbours

/-!
# Proofs.Dispatch.Selection: what a press selects

A press looks through the table once and decides with what it has seen so far.  Since bindings of one combination
are neighbours, this comes to the same as to look for the combination first: it is the one of the first binding
that can fire and has the key.  If no binding of the combination lets others fire along, those that it covers are
forced up.  Then the press is offered to the bindings of the combination, and to those that fire along, until one
deals with it.
-/

namespace KeyConsole.Dispatch.Dispatcher

open Keyboard (Key Combo Event)
open Ordered (InOrder)

/-! ### What is meant -/

/-- The bindings that can fire, in table order: commands and those that are live, with all of their keys
pressed. -/
def ready (d : Dispatcher) : List Binding :=
  d.table.bindings.filter fun b => d.isEligible b && d.isFullyPressed b.combo

/-- The combination that a press of a key selects: that of the first binding that can fire and has the key. -/
def selected? (k : Key) (d : Dispatcher) : Option Combo :=
  (d.ready.find? (·.combo.contains k)).map (·.combo)

/-- The bindings of a combination that can fire. -/
def chosen (m : Combo) (d : Dispatcher) : List Binding := d.ready.filter (·.combo = m)

/-- The bindings that can fire and stand behind those of a combination, of combinations that it covers. -/
def covered (m : Combo) (d : Dispatcher) : List Binding :=
  (d.ready.dropWhile (·.combo ≠ m)).filter fun b => b.combo ≠ m && m.covers b.combo

/-- Smaller combinations may fire along. -/
def fireAlong (m : Combo) (d : Dispatcher) : Bool := (d.chosen m).any (·.allowSubCombos)

/-- The bindings to which a press is offered. -/
def offered (m : Combo) (d : Dispatcher) : List Binding :=
  d.chosen m ++ if d.fireAlong m then d.covered m else []

/-- The bindings that a press forces up. -/
def forcedUp (m : Combo) (d : Dispatcher) : List Binding := if d.fireAlong m then [] else d.covered m

variable {d : Dispatcher} {k : Key} {m : Combo} {b : Binding} {bs : List Binding} {found : Matching}

theorem mem_ready : b ∈ d.ready ↔ b ∈ d.table.bindings ∧ d.isEligible b ∧ d.isFullyPressed b.combo := by
  simp [ready]

/-- A press is offered to bindings of the combination, and to those that it covers if they may fire along. -/
theorem mem_offered (h : b ∈ d.offered m) :
    b ∈ d.ready ∧ (b.combo = m ∨ d.fireAlong m ∧ m.covers b.combo) := by
  rcases List.mem_append.mp h with h | h
  · obtain ⟨hready, hcombo⟩ := List.mem_filter.mp h
    exact ⟨hready, .inl (by simpa using hcombo)⟩
  · split at h
    · rename_i hallow
      obtain ⟨hready, hcovers⟩ := List.mem_filter.mp h
      simp only [Bool.and_eq_true] at hcovers
      exact ⟨(List.dropWhile_sublist _).subset hready, .inr ⟨hallow, hcovers.2⟩⟩
    · cases h

/-! ### One look at the table -/

theorem matching_eq_ready (k : Key) (d : Dispatcher) : d.matching k = d.ready.foldl (Matching.step d k) {} := by
  rw [matching, ready, List.foldl_filter]
  congr 1
  funext found b
  unfold Matching.step
  split <;> simp_all

theorem step_before (hb : b ∈ d.ready) (hk : ¬b.combo.contains k) : Matching.step d k {} b = {} := by
  obtain ⟨-, heligible, hpressed⟩ := mem_ready.mp hb
  simp [Matching.step, heligible, hpressed, hk]

theorem step_chosen (hb : b ∈ d.ready) (hk : b.combo.contains k) (hcombo : found.combo.all (· = b.combo)) :
    Matching.step d k found b = { found with
      combo := some b.combo
      pressed := found.pressed ++ [b.id]
      canFocus := found.canFocus || b.canFocus
      allowSubCombos := found.allowSubCombos || b.allowSubCombos } := by
  obtain ⟨-, heligible, hpressed⟩ := mem_ready.mp hb
  simp [Matching.step, heligible, hpressed, hk, hcombo]

theorem step_behind (hb : b ∈ d.ready) (hm : found.combo = some m) (hne : b.combo ≠ m) :
    Matching.step d k found b =
      if m.covers b.combo then
        if found.allowSubCombos then { found with pressed := found.pressed ++ [b.id] }
        else { found with released := found.released ++ [b.id] }
      else found := by
  obtain ⟨-, heligible, hpressed⟩ := mem_ready.mp hb
  simp [Matching.step, heligible, hpressed, hm, hne.symm]

theorem foldl_before (hbs : ∀ b ∈ bs, b ∈ d.ready ∧ ¬b.combo.contains k) :
    bs.foldl (Matching.step d k) {} = {} := by
  induction bs with
  | nil => rfl
  | cons b bs ih =>
    obtain ⟨⟨hb, hk⟩, hbs⟩ := List.forall_mem_cons.mp hbs
    rw [List.foldl_cons, step_before hb hk, ih hbs]

theorem foldl_chosen (hbs : ∀ b ∈ bs, b ∈ d.ready ∧ b.combo = m) (hk : m.contains k) (hm : found.combo = some m) :
    bs.foldl (Matching.step d k) found = { found with
      pressed := found.pressed ++ bs.map (·.id)
      canFocus := found.canFocus || bs.any (·.canFocus)
      allowSubCombos := found.allowSubCombos || bs.any (·.allowSubCombos) } := by
  induction bs generalizing found with
  | nil => simp
  | cons b bs ih =>
    obtain ⟨⟨hb, hcombo⟩, hbs⟩ := List.forall_mem_cons.mp hbs
    rw [List.foldl_cons, step_chosen hb (hcombo ▸ hk) (by simp [hm, hcombo]), hcombo, ih hbs rfl]
    simp [hm, Bool.or_assoc]

theorem foldl_behind (hbs : ∀ b ∈ bs, b ∈ d.ready ∧ b.combo ≠ m) (hm : found.combo = some m) :
    bs.foldl (Matching.step d k) found =
      if found.allowSubCombos then
        { found with pressed := found.pressed ++ (bs.filter (m.covers ·.combo)).map (·.id) }
      else { found with released := found.released ++ (bs.filter (m.covers ·.combo)).map (·.id) } := by
  induction bs generalizing found with
  | nil => simp
  | cons b bs ih =>
    obtain ⟨⟨hb, hne⟩, hbs⟩ := List.forall_mem_cons.mp hbs
    rw [List.foldl_cons, step_behind hb hm hne]
    by_cases hcovers : m.covers b.combo
    · rw [if_pos hcovers]
      by_cases hallow : found.allowSubCombos
      · rw [if_pos hallow, if_pos hallow]
        refine (ih hbs ?_).trans ?_
        · exact hm
        · simp [hallow, hcovers]
      · rw [if_neg hallow, if_neg hallow]
        refine (ih hbs ?_).trans ?_
        · exact hm
        · simp [hallow, hcovers]
    · rw [if_neg hcovers, ih hbs hm, List.filter_cons, if_neg hcovers]

/-! ### What a press finds -/

theorem inOrder_ready (hd : d.table.Sorted) : InOrder Binding.precedes d.ready := hd.sublist List.filter_sublist

theorem matching_none (h : d.selected? k = none) : d.matching k = {} := by
  rw [selected?, Option.map_eq_none_iff, List.find?_eq_none] at h
  rw [matching_eq_ready]
  exact foldl_before fun b hb => ⟨hb, h b hb⟩

/-- The selected combination has the key, and its bindings stand together among those that can fire. -/
theorem ready_split (hd : d.table.Sorted) (h : d.selected? k = some m) :
    m.contains k ∧ ∃ before first same behind, d.ready = before ++ first :: (same ++ behind) ∧
      (∀ b ∈ before, ¬b.combo.contains k) ∧ first.combo = m ∧ (∀ b ∈ same, b.combo = m) ∧
      (∀ b ∈ behind, b.combo ≠ m) := by
  obtain ⟨first, hfind, rfl⟩ := Option.map_eq_some_iff.mp h
  obtain ⟨hk, before, rest, hsplit, hbefore⟩ := List.find?_eq_some_iff_append.mp hfind
  have horder : InOrder Binding.precedes (first :: rest) :=
    (inOrder_ready hd).sublist (hsplit ▸ List.sublist_append_right before _)
  obtain ⟨hsame, hother⟩ := Table.filter_combo horder
  refine ⟨hk, before, first, rest.filter (·.combo = first.combo), rest.filter (·.combo ≠ first.combo), ?_,
    fun b hb => by simpa using hbefore b hb, rfl, fun b hb => by simpa using (List.mem_filter.mp hb).2,
    fun b hb => by simpa using (List.mem_filter.mp hb).2⟩
  rw [hsame, hother, List.takeWhile_append_dropWhile]
  exact hsplit

/-- A press finds the bindings of the selected combination and those behind that it covers. -/
theorem matching_some (hd : d.table.Sorted) (h : d.selected? k = some m) :
    d.matching k = {
      combo := some m
      pressed := (d.offered m).map (·.id)
      released := (d.forcedUp m).map (·.id)
      canFocus := (d.chosen m).any (·.canFocus)
      allowSubCombos := d.fireAlong m } := by
  obtain ⟨hk, before, first, same, behind, hready, hbefore, hfirst, hsame, hbehind⟩ := ready_split hd h
  have hother : ∀ b ∈ before, b.combo ≠ m := fun b hb hcombo => hbefore b hb (hcombo ▸ hk)
  have hmem : ∀ b, b ∈ before ∨ b = first ∨ b ∈ same ∨ b ∈ behind → b ∈ d.ready := by
    intro b hb
    rw [hready]
    simpa using hb
  have hchosen : d.chosen m = first :: same := by
    have hbefore' : before.filter (·.combo = m) = [] := by simpa [List.filter_eq_nil_iff] using hother
    have hsame' : same.filter (·.combo = m) = same := by simpa [List.filter_eq_self] using hsame
    have hbehind' : behind.filter (·.combo = m) = [] := by simpa [List.filter_eq_nil_iff] using hbehind
    rw [chosen, hready, List.filter_append, hbefore', List.filter_cons_of_pos (by simpa using hfirst),
      List.filter_append, hsame', hbehind']
    simp
  have hcovered : d.covered m = behind.filter (m.covers ·.combo) := by
    have hdrop : d.ready.dropWhile (·.combo ≠ m) = first :: (same ++ behind) := by
      rw [hready, List.dropWhile_append_of_pos (by simpa using hother),
        List.dropWhile_cons_of_neg (by simpa using hfirst)]
    have hsame' : same.filter (fun b => b.combo ≠ m && m.covers b.combo) = [] := by
      rw [List.filter_eq_nil_iff]
      intro b hb
      simp [hsame b hb]
    have hbehind' : behind.filter (fun b => b.combo ≠ m && m.covers b.combo) = behind.filter (m.covers ·.combo) :=
      List.filter_congr fun b hb => by simp [hbehind b hb]
    rw [covered, hdrop, List.filter_cons_of_neg (by simp [hfirst]), List.filter_append, hsame', hbehind',
      List.nil_append]
  have hfound : Matching.step d k {} first = {
      combo := some m, pressed := [first.id], canFocus := first.canFocus
      allowSubCombos := first.allowSubCombos } := by
    rw [step_chosen (hmem first (by simp)) (hfirst ▸ hk) rfl, hfirst]
    simp
  rw [matching_eq_ready, hready, List.foldl_append, foldl_before fun b hb => ⟨hmem b (.inl hb), hbefore b hb⟩,
    List.foldl_cons, hfound, List.foldl_append,
    foldl_chosen (fun b hb => ⟨hmem b (by simp [hb]), hsame b hb⟩) hk rfl,
    foldl_behind (fun b hb => ⟨hmem b (by simp [hb]), hbehind b hb⟩) rfl]
  have hallow : d.fireAlong m = (first.allowSubCombos || same.any (·.allowSubCombos)) := by
    rw [fireAlong, hchosen, List.any_cons]
  simp only [← hallow]
  rw [offered, forcedUp, hchosen, hcovered]
  cases d.fireAlong m <;> simp

/-! ### Offers -/

/-- A press is offered to some bindings, one after the other. -/
def offerAll (uiOnly isRepeat : Bool) (bs : List Binding) (d : Dispatcher) : Dispatcher :=
  bs.foldl (fun d b => (pressBinding uiOnly isRepeat b.id d).2) d

/-- Of the bindings that wait for a press some are offered it, the others are left out: whoever is offered it and
is not the last has not dealt with it, and if others are left out, then because the last one has. -/
structure OfferedInTurn (uiOnly isRepeat : Bool) (d : Dispatcher) (waiting made left : List Binding) : Prop where
  split : waiting = made ++ left
  goes_on : ∀ before b c after, made = before ++ b :: c :: after →
    (pressBinding uiOnly isRepeat b.id (offerAll uiOnly isRepeat before d)).1 = false
  stops : left ≠ [] → ∃ before b, made = before ++ [b] ∧
    (pressBinding uiOnly isRepeat b.id (offerAll uiOnly isRepeat before d)).1 = true

/-- The bindings that are offered a press, one after the other, until one deals with it. -/
def asked (uiOnly isRepeat : Bool) : List Binding → Dispatcher → List Binding
  | [], _ => []
  | b :: bs, d =>
    let (handled, d) := pressBinding uiOnly isRepeat b.id d
    if handled then [b] else b :: asked uiOnly isRepeat bs d

theorem asked_cons (uiOnly isRepeat : Bool) (b : Binding) (bs : List Binding) (d : Dispatcher) :
    asked uiOnly isRepeat (b :: bs) d = if (pressBinding uiOnly isRepeat b.id d).1 then [b]
      else b :: asked uiOnly isRepeat bs (pressBinding uiOnly isRepeat b.id d).2 := rfl

/-- None of some bindings deals with a press, if they are offered it one after the other. -/
def PassedBy (uiOnly isRepeat : Bool) (bs : List Binding) (d : Dispatcher) : Prop :=
  ∀ before c after, bs = before ++ c :: after →
    (pressBinding uiOnly isRepeat c.id (offerAll uiOnly isRepeat before d)).1 = false

theorem passedBy_cons {uiOnly isRepeat : Bool} :
    PassedBy uiOnly isRepeat (b :: bs) d ↔ (pressBinding uiOnly isRepeat b.id d).1 = false ∧
      PassedBy uiOnly isRepeat bs (pressBinding uiOnly isRepeat b.id d).2 := by
  constructor
  · intro h
    exact ⟨h [] b bs rfl, fun before c after heq => h (b :: before) c after (congrArg (b :: ·) heq)⟩
  · rintro ⟨hb, hbs⟩ before c after heq
    cases before with
    | nil =>
      obtain ⟨rfl, -⟩ := List.cons.inj heq
      exact hb
    | cons x before =>
      obtain ⟨rfl, htail⟩ := List.cons.inj heq
      exact hbs before c after htail

/-- A binding is asked if none of those before it deals with the press. -/
theorem mem_asked {uiOnly isRepeat : Bool} {c : Binding} :
    c ∈ asked uiOnly isRepeat bs d ↔
      ∃ before after, bs = before ++ c :: after ∧ PassedBy uiOnly isRepeat before d := by
  induction bs generalizing d with
  | nil => simp [asked]
  | cons b bs ih =>
    rw [asked_cons]
    constructor
    · intro h
      have hcases : c = b ∨ (pressBinding uiOnly isRepeat b.id d).1 = false ∧
          c ∈ asked uiOnly isRepeat bs (pressBinding uiOnly isRepeat b.id d).2 := by
        split at h
        · exact .inl (List.mem_singleton.mp h)
        · rename_i hpassed
          exact (List.mem_cons.mp h).imp_right fun h => ⟨by simpa using hpassed, h⟩
      rcases hcases with rfl | ⟨hb, hc⟩
      · exact ⟨[], bs, rfl, fun before x after heq => by simp at heq⟩
      · obtain ⟨before, after, rfl, hpassed⟩ := ih.mp hc
        exact ⟨b :: before, after, rfl, passedBy_cons.mpr ⟨hb, hpassed⟩⟩
    · rintro ⟨before, after, heq, hpassed⟩
      cases before with
      | nil =>
        obtain ⟨rfl, -⟩ := List.cons.inj heq
        split <;> exact List.mem_cons_self
      | cons x before =>
        obtain ⟨rfl, htail⟩ := List.cons.inj heq
        obtain ⟨hb, hpassed⟩ := passedBy_cons.mp hpassed
        rw [if_neg (by simp [hb])]
        exact List.mem_cons_of_mem b (ih.mpr ⟨before, after, htail, hpassed⟩)

theorem offeredInTurn_asked (uiOnly isRepeat : Bool) (bs : List Binding) (d : Dispatcher) :
    ∃ left, OfferedInTurn uiOnly isRepeat d bs (asked uiOnly isRepeat bs d) left ∧
      pressAll uiOnly isRepeat (bs.map (·.id)) d = offerAll uiOnly isRepeat (asked uiOnly isRepeat bs d) d := by
  induction bs generalizing d with
  | nil => exact ⟨[], ⟨rfl, by simp [asked], by simp⟩, rfl⟩
  | cons b bs ih =>
    rw [List.map_cons, pressAll_cons, asked_cons]
    cases hb : (pressBinding uiOnly isRepeat b.id d).1 with
    | true =>
      refine ⟨bs, ⟨rfl, ?_, fun _ => ⟨[], b, rfl, hb⟩⟩, rfl⟩
      intro before c c' after heq
      have hlength := congrArg List.length heq
      simp only [if_true, List.length_append, List.length_cons, List.length_nil] at hlength
      omega
    | false =>
      obtain ⟨left, ⟨hsplit, hgoes, hstops⟩, hall⟩ := ih (pressBinding uiOnly isRepeat b.id d).2
      refine ⟨left, ⟨congrArg (b :: ·) hsplit, ?_, fun hleft => ?_⟩, hall⟩
      · intro before c c' after heq
        cases before with
        | nil =>
          obtain ⟨rfl, -⟩ := List.cons.inj heq
          exact hb
        | cons x before =>
          obtain ⟨rfl, htail⟩ := List.cons.inj heq
          exact hgoes before c c' after htail
      · obtain ⟨before, c, hmade, hc⟩ := hstops hleft
        exact ⟨b :: before, c, congrArg (b :: ·) hmade, hc⟩

theorem pressAll_eq (uiOnly isRepeat : Bool) (bs : List Binding) (d : Dispatcher) :
    ∃ made left, OfferedInTurn uiOnly isRepeat d bs made left ∧
      pressAll uiOnly isRepeat (bs.map (·.id)) d = offerAll uiOnly isRepeat made d :=
  ⟨_, offeredInTurn_asked uiOnly isRepeat bs d⟩

/-! ### Stages -/

/-- A press has been shown to the hook, and its flags and its key are taken over. -/
def takenOver (e : Event) (d : Dispatcher) : Dispatcher := struck e (askHook e (pressKind e) d).2

theorem AlongReleases.takenOver {R : Dispatcher → Dispatcher → Prop} (hR : AlongReleases R) (e : Event)
    (d : Dispatcher) : R d (d.takenOver e) := hR.trans (hR.askHook e _ d) (hR.struck e _)

theorem alike_takenOver (e : Event) (d : Dispatcher) : d.table.Alike (takenOver e d).table :=
  (keyed_alongReleases.takenOver e d).alike

/-- What a press forces up has been released. -/
def forced (m : Combo) (d : Dispatcher) : Dispatcher := ((d.forcedUp m).map (·.id)).foldl releaseBinding d

/-- What a press forces up has been released, and if a binding of the combination may move the focus, the user
interface has been asked whether only it is to hear of the press. -/
def readied (m : Combo) (d : Dispatcher) : Bool × Dispatcher :=
  if (d.chosen m).any (·.canFocus) then (d.forced m).offerFocus else (false, d.forced m)

theorem AlongReleases.readied {R : Dispatcher → Dispatcher → Prop} (hR : AlongReleases R) (m : Combo)
    (d : Dispatcher) : R d (d.readied m).2 := by
  have hforced : R d (d.forced m) := hR.foldl hR.released _ d
  unfold Dispatcher.readied
  split
  · exact hR.trans hforced (hR.relayed (relayed_offerFocus _))
  · exact hforced

theorem fired_none {e : Event} (h : d.selected? e.key = none) : fired e d = d := by
  unfold fired
  rw [matching_none h]
  rfl

theorem fired_some {e : Event} (hd : d.table.Sorted) (h : d.selected? e.key = some m) :
    fired e d = pressAll (d.readied m).1 e.isRepeat ((d.offered m).map (·.id)) (d.readied m).2 := by
  unfold fired
  rw [matching_some hd h]
  rfl

/-- The combination that a press fires: the one that it selects, if presses are looked at and the hook does not keep
this one. -/
def fires? (e : Event) (d : Dispatcher) : Option Combo :=
  if !d.enabled || e.key = .unknown || (askHook e (pressKind e) d).1.handled then none
  else (takenOver e d).selected? e.key

theorem keyDown_of_fires {e : Event} (h : d.fires? e = some m) :
    (takenOver e d).selected? e.key = some m ∧ (keyDown e d).2 = fired e (takenOver e d) := by
  unfold fires? at h
  split at h
  · cases h
  · rename_i hlooked
    simp only [Bool.or_eq_true, not_or] at hlooked
    obtain ⟨⟨henabled, hkey⟩, hhook⟩ := hlooked
    refine ⟨h, ?_⟩
    rw [keyDown_eq, if_neg (by simp [henabled, hkey]), if_neg hhook]
    rfl

end KeyConsole.Dispatch.Dispatcher
