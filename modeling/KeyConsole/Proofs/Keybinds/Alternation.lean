import KeyConsole.Proofs.Dispatch.KeyTransitions
import KeyConsole.Proofs.Keybinds.Operation

/-!
# Proofs.Keybinds.Alternation: a binding goes down and up by turns

In every run a binding goes down first, then up, then down again, and so on, if one leaves out where a repeated
press fires again what is down.  It is always in the state it entered last.  Whenever it goes up, this is passed
on, whatever the user interface made of its going down.
-/

namespace KeyConsole.Keybinds

open Dispatch
open Dispatcher (Edit Edited Delivered Delivers)

namespace Operation

/-- The operation is a press that is repeated. -/
def isRepeat : Operation → Bool
  | keyDown e => e.isRepeat
  | _ => false

/-- What an operation tells. -/
def told (d : Dispatcher) (op : Operation) : List Notice := (op.apply d).journal.drop d.journal.length

/-- The states that an operation makes a binding enter, but for those that a repeated press makes it enter again
while it is down and may repeat. -/
def entered (id : Nat) (d : Dispatcher) (op : Operation) : List BindingState :=
  let again := op.isRepeat && (d.table.get? id).any (·.canRepeat)
  ((changes id (op.told d)).filter fun change => !isRefire again change).map (·.2)

/-- The states that a run makes a binding enter. -/
def history (id : Nat) : List Operation → Dispatcher → List BindingState
  | [], _ => []
  | op :: ops, d => op.entered id d ++ history id ops (op.apply d)

end Operation

variable {id : Nat} {states : List BindingState} {again : Bool} {ns : List Notice} {d d' : Dispatcher}
  {op : Operation}

/-- The states that a binding has entered turn it over and have led to the one it is in; before it is there it
has entered none. -/
structure Alternating (id : Nat) (states : List BindingState) (d : Dispatcher) : Prop where
  unborn : d.nextId ≤ id → states = [] ∧ changes id d.journal = []
  turns : ∃ state, Turns .up states state ∧ Way true .up (changes id d.journal) state ∧
    ∀ b, d.table.get? id = some b → b.state = state

/-- It has been told of every binding when it came, and whatever went up has been passed on. -/
structure Announced (d : Dispatcher) : Prop where
  added : ∀ b ∈ d.table.bindings, .added b.atRest ∈ d.journal
  passed : UpsPassed (fun told id change => ∃ b, .added b ∈ told ∧ b.id = id ∧ change = b.release) d.journal

/-! ### Transitions -/

theorem told_of_journal (h : (op.apply d).journal = d.journal ++ ns) : op.told d = ns := by
  unfold Operation.told
  rw [h, List.drop_left]

theorem Alternating.delivered (hs : d.Sound) (h : Alternating id states d)
    (hd : Delivered op.isRepeat ns d (op.apply d)) :
    Alternating id (states ++ op.entered id d) (op.apply d) := by
  have htold := told_of_journal hd.journal
  obtain ⟨state, hturns, hway, hstate⟩ := h.turns
  have hchanges : changes id (op.apply d).journal = changes id d.journal ++ changes id ns := by
    rw [hd.journal, changes_append]
  cases hget : d.table.get? id with
  | none =>
    obtain ⟨hnone, hnil⟩ := hd.absent id hget
    have hentered : op.entered id d = [] := by
      unfold Operation.entered
      rw [htold, hnil]
      rfl
    rw [hnil, List.append_nil] at hchanges
    rw [hentered, List.append_nil]
    refine ⟨fun hid => ?_, state, hturns, ?_, fun b hb => absurd (hnone.symm.trans hb) (by simp)⟩
    · rw [hchanges]
      exact h.unborn (hd.nextId ▸ hid)
    · rw [hchanges]
      exact hway
  | some b =>
    obtain ⟨b', hb', -, hstep⟩ := hd.way id b hget
    rw [hstate b hget] at hstep
    have hentered : op.entered id d
        = ((changes id ns).filter fun change => !isRefire (op.isRepeat && b.canRepeat) change).map (·.2) := by
      unfold Operation.entered
      rw [htold, hget, Option.any_some]
    refine ⟨fun hid => ?_, b'.state, ?_, ?_, fun c hc => ?_⟩
    · obtain ⟨hmem, rfl⟩ := Table.get?_mem hget
      have hfresh := hs.fresh b hmem
      rw [hd.nextId] at hid
      omega
    · rw [hentered]
      exact hturns.append hstep.turns
    · rw [hchanges]
      exact hway.append (hstep.mono fun _ => rfl)
    · rw [Option.some.inj (hb'.symm.trans hc)]

theorem Announced.delivered (h : Announced d) (hd : Delivered again ns d d') (hs' : d'.Sound) : Announced d' where
  added := by
    intro b hb
    have hget := hs'.distinct.get?_eq_some hb
    rw [hd.journal]
    cases hold : d.table.get? b.id with
    | none => exact absurd (hget.symm.trans (hd.absent _ hold).1) (by simp)
    | some c =>
      obtain ⟨c', hc', hrest, -⟩ := hd.way _ c hold
      obtain rfl : b = c' := Option.some.inj (hget.symm.trans hc')
      rw [hrest]
      exact List.mem_append_left _ (h.added c (Table.get?_mem hold).1)
  passed := by
    rw [hd.journal]
    refine h.passed.append hd.passed ?_
    rintro told id change ⟨b, hb, rfl⟩
    obtain ⟨hmem, rfl⟩ := Table.get?_mem hb
    exact ⟨b.atRest, List.mem_append_left _ (h.added b hmem), rfl, rfl⟩

/-! ### Edits -/

theorem edit_journal (h : Edit d d') :
    ∃ ns, d'.journal = d.journal ++ ns ∧ ∀ id, changes id ns = [] := by
  cases h with
  | insert r modified h => exact ⟨_, rfl, fun _ => rfl⟩
  | delete modified h => exact ⟨_, rfl, fun _ => rfl⟩
  | putDown modified shipped => exact ⟨[], (List.append_nil _).symm, fun _ => rfl⟩

theorem edited_journal (h : Edited d d') :
    ∃ ns, d'.journal = d.journal ++ ns ∧ ∀ id, changes id ns = [] := by
  induction h with
  | refl => exact ⟨[], (List.append_nil _).symm, fun _ => rfl⟩
  | tail _ h ih =>
    obtain ⟨ns, hns, hnil⟩ := ih
    obtain ⟨ns', hns', hnil'⟩ := edit_journal h
    exact ⟨ns ++ ns', by rw [hns', hns, List.append_assoc], fun id => by rw [changes_append, hnil, hnil']; rfl⟩

theorem Alternating.edit (hs : d.Sound) (h : Alternating id states d) (he : Edit d d') :
    Alternating id states d' := by
  have hs' := hs.edit he
  obtain ⟨ns, hns, hnil⟩ := edit_journal he
  have hchanges : changes id d'.journal = changes id d.journal := by
    rw [hns, changes_append, hnil, List.append_nil]
  obtain ⟨state, hturns, hway, hstate⟩ := h.turns
  have hold : ∀ b ∈ d.table.bindings, b.id = id → b.state = state := by
    rintro b hb rfl
    exact hstate b (hs.distinct.get?_eq_some hb)
  cases he with
  | @insert b r modified hb =>
    obtain ⟨hid, hup, -, -⟩ := Dispatcher.ofRegistration?_eq_some hb
    refine ⟨fun hnext => ?_, state, hturns, hchanges ▸ hway, fun c hc => ?_⟩
    · rw [hchanges]
      exact h.unborn (Nat.le_of_succ_le hnext)
    · obtain ⟨hmem, hcid⟩ := Table.get?_mem hc
      rcases (Table.mem_insert c).mp hmem with rfl | hmem
      · -- the id is new, so it has no transitions yet
        obtain ⟨rfl, -⟩ := h.unborn (by omega)
        rw [hup]
        cases hturns
        rfl
      · exact hold c hmem hcid
  | @delete b modified hb =>
    refine ⟨fun hnext => ?_, state, hturns, hchanges ▸ hway, fun c hc => ?_⟩
    · rw [hchanges]
      exact h.unborn hnext
    · obtain ⟨hmem, hcid⟩ := Table.get?_mem hc
      exact hold c (List.mem_of_mem_eraseP hmem) hcid
  | putDown modified shipped => exact ⟨h.unborn, state, hturns, hway, hstate⟩

theorem Announced.edit (h : Announced d) (he : Edit d d') : Announced d' := by
  obtain ⟨ns, hns, hnil⟩ := edit_journal he
  have hkept : ∀ b ∈ d.table.bindings, .added b.atRest ∈ d'.journal := fun b hb => by
    rw [hns]
    exact List.mem_append_left _ (h.added b hb)
  refine ⟨?_, ?_⟩
  · cases he with
    | @insert b r modified hb =>
      intro c hc
      rcases (Table.mem_insert c).mp hc with rfl | hc
      · have hrest : c.atRest = c := by
          rw [Binding.atRest, ← (Dispatcher.ofRegistration?_eq_some hb).2.1]
        rw [hrest]
        exact List.mem_append_right _ List.mem_cons_self
      · exact hkept c hc
    | @delete b modified hb => exact fun c hc => hkept c (List.mem_of_mem_eraseP hc)
    | putDown modified shipped => exact hkept
  · rw [hns]
    have hnone : UpsPassed (fun _ _ _ => False) ns := .of_changes hnil
    exact h.passed.append hnone fun _ _ _ h => h.elim

theorem Alternating.edited (hs : d.Sound) (h : Alternating id states d) (he : Edited d d') :
    Alternating id states d' := by
  induction he with
  | refl => exact h
  | tail hrow he ih => exact ih.edit (hs.edited hrow) he

theorem Announced.edited (h : Announced d) (he : Edited d d') : Announced d' := by
  induction he with
  | refl => exact h
  | tail _ he ih => exact ih.edit he

/-! ### Runs -/

/-- Every operation edits, or delivers transitions. -/
theorem delivers_or_edited (hs : d.Sound) (op : Operation) :
    Delivers op.isRepeat d (op.apply d) ∨ Edited d (op.apply d) := by
  rcases apply_cases d op with hedited | ⟨e, rfl⟩ | ⟨e, rfl⟩ | ⟨name, d', rfl, h, happly⟩ | ⟨htable, hnext, hjournal⟩
  · exact .inr hedited
  · exact .inl (Dispatcher.delivers_keyDown e d)
  · exact .inl (Dispatcher.delivers_keyUp e d)
  · exact .inl (happly ▸ Dispatcher.delivers_setActiveContext hs h)
  · exact .inl (.still htable hnext ⟨[], by simp [hjournal], by simp⟩)

theorem alternating_apply (hs : d.Sound) (h : Alternating id states d) (op : Operation) :
    Alternating id (states ++ op.entered id d) (op.apply d) := by
  rcases delivers_or_edited hs op with ⟨ns, hd⟩ | he
  · exact h.delivered hs hd
  · obtain ⟨ns, hns, hnil⟩ := edited_journal he
    have hentered : op.entered id d = [] := by
      unfold Operation.entered
      rw [told_of_journal hns, hnil]
      rfl
    rw [hentered, List.append_nil]
    exact h.edited hs he

theorem announced_apply (hs : d.Sound) (h : Announced d) (op : Operation) : Announced (op.apply d) := by
  rcases delivers_or_edited hs op with ⟨ns, hd⟩ | he
  · exact h.delivered hd (sound_apply hs op)
  · exact h.edited he

theorem alternating_run (hs : d.Sound) (h : Alternating id states d) (ops : List Operation) :
    Alternating id (states ++ Operation.history id ops d) (Operation.run ops d) := by
  induction ops generalizing states d with
  | nil =>
    rw [Operation.history, List.append_nil]
    exact h
  | cons op ops ih =>
    rw [Operation.history, ← List.append_assoc]
    exact ih (sound_apply hs op) (alternating_apply hs h op)

theorem announced_run (hs : d.Sound) (h : Announced d) (ops : List Operation) :
    Announced (Operation.run ops d) :=
  (Operation.run_induction (P := fun d => d.Sound ∧ Announced d) (Q := fun _ => True)
    (fun _ op _ h => ⟨sound_apply h.1 op, announced_apply h.1 h.2 op⟩) (fun _ _ => trivial) ⟨hs, h⟩).2

/-- A binding goes down and up by turns, down first, if one leaves out where a repeated press fires it again.  It
is in the state it entered last, and up if it has entered none.  Whenever it goes up, this is passed on next, at
most the user interface sees it before. -/
theorem transitions_alternate {start : Dispatcher} (hstart : start = {} ∨ start = engineDispatcher)
    (ops : List Operation) (id : Nat) :
    (∀ n state, (Operation.history id ops start)[n]? = some state →
      state = if n % 2 = 0 then .down else .up) ∧
    (∀ b ∈ (Operation.run ops start).table.bindings, b.id = id →
      b.state = (Operation.history id ops start).getLast?.getD .up ∧
      b.state = ((changes id (Operation.run ops start).journal).map (·.2)).getLast?.getD .up) ∧
    (∀ told before rest, (Operation.run ops start).journal = told ++ .transition id before .up :: rest →
      ∃ b, .added b ∈ told ∧ b.id = id ∧ PassedOn ⟨b.function, .up, b.canFocus⟩ rest) := by
  obtain ⟨hs, hbindings, hjournal⟩ : start.Sound ∧ start.table.bindings = [] ∧ start.journal = [] := by
    rcases hstart with rfl | rfl
    · exact ⟨sound_empty, rfl, rfl⟩
    · exact ⟨sound_engineDispatcher, rfl, rfl⟩
  have hchanges : changes id start.journal = [] := by
    rw [hjournal]
    rfl
  have halternating : Alternating id [] start := by
    refine ⟨fun _ => ⟨rfl, hchanges⟩, .up, .stay _, hchanges ▸ .stay _, fun b hb => ?_⟩
    have hmem := (Table.get?_mem hb).1
    rw [hbindings] at hmem
    cases hmem
  have hannounced : Announced start := by
    refine ⟨?_, ?_⟩
    · rw [hbindings]
      exact fun b hb => absurd hb List.not_mem_nil
    · rw [hjournal]
      exact .of_changes fun _ => rfl
  obtain ⟨-, state, hturns, hway, hstate⟩ := alternating_run hs halternating ops
  rw [List.nil_append] at hturns
  refine ⟨fun n state hn => ?_, fun b hb hid => ?_, fun told before rest heq => ?_⟩
  · simpa using hturns.alternate n state hn
  · have hb' := hstate b (hid ▸ (sound_run hs ops).distinct.get?_eq_some hb)
    rw [hturns.getLast?_getD, hway.getLast?_getD]
    exact ⟨hb', hb'⟩
  · obtain ⟨change, ⟨b, hb, hid, rfl⟩, hpassed⟩ := (announced_run hs hannounced ops).passed told id before rest heq
    exact ⟨b, hb, hid, hpassed⟩

/-- A run that presses, holds, lets go and presses again a key whose binding may repeat, before a user interface
that blocks everything. -/
def blockedJump : List Operation := [
  .createContext "play" none, .addFunction "play" "Jump", .activate "play",
  .setInterface { reply := fun _ => { blocks := true } },
  .register { function := "Jump", base := .space, canRepeat := true },
  .keyDown { key := .space }, .keyDown { key := .space, isRepeat := true }, .keyUp { key := .space },
  .keyDown { key := .space }]

theorem transitions_alternate_blockedJump :
    Operation.history 0 blockedJump {} = [.down, .up, .down] ∧
      (changes 0 (Operation.run blockedJump {}).journal).map (·.2) = [.down, .down, .up, .down] ∧
      (∀ b ∈ (Operation.run blockedJump {}).table.bindings, b.id = 0 →
        b.state = (Operation.history 0 blockedJump {}).getLast?.getD .up) ∧
      ∀ told before rest, (Operation.run blockedJump {}).journal = told ++ .transition 0 before .up :: rest →
        ∃ b, .added b ∈ told ∧ b.id = 0 ∧ PassedOn ⟨b.function, .up, b.canFocus⟩ rest := by
  obtain ⟨-, hstates, hpassed⟩ := transitions_alternate (.inl rfl) blockedJump 0
  have hhistory : Operation.history 0 blockedJump {} = [.down, .up, .down] := by decide +kernel
  have hchanges : (changes 0 (Operation.run blockedJump {}).journal).map (·.2) = [.down, .down, .up, .down] := by
    decide +kernel
  exact ⟨hhistory, hchanges, fun b hb hid => (hstates b hb hid).1, hpassed⟩

end KeyConsole.Keybinds
