import KeyConsole.Proofs.Dispatch.Queueing
import KeyConsole.Proofs.Keybinds.Alternation

/-!
# Proofs.Keybinds.QueuedCommands: which operations queue commands

In every run commands are queued by presses only, one at most by each: the one that is offered the press with none
before it that deals with it.  That the press is repeated, or that the command may not repeat, is of no matter.
-/

namespace KeyConsole.Keybinds

open Dispatch
open Dispatcher (Idle PassedBy commandsOf readied takenOver)
open Keyboard (Combo Key)

variable {d : Dispatcher} {op : Operation} {id : Nat}

namespace Operation

/-- The operation is a press, fresh or repeated. -/
def isPress : Operation → Bool
  | keyDown _ => true
  | _ => false

/-- The commands that an operation queues. -/
def queues (d : Dispatcher) : Operation → List Binding
  | keyDown e => commandsOf (d.reached e)
  | _ => []

/-- How often a run queues a command. -/
def timesQueued (id : Nat) : List Operation → Dispatcher → Nat
  | [], _ => 0
  | op :: ops, d => (op.queues d).countP (·.id = id) + timesQueued id ops (op.apply d)

end Operation

/-! ### One operation -/

/-- Sound, in order, and without a command that is down. -/
structure Regular (d : Dispatcher) : Prop where
  sound : d.Sound
  inOrder : d.table.Sorted
  commandsUp : d.CommandsUp

theorem regular_start (h : d = {} ∨ d = engineDispatcher) : Regular d := by
  refine ⟨sound_start h, sorted_start h, ?_⟩
  rcases h with rfl | rfl
  · exact fun b hb => absurd hb List.not_mem_nil
  · exact fun b hb => absurd hb List.not_mem_nil

theorem idle_apply (hpress : ¬op.isPress) (htake : op ≠ .takeCommands) (d : Dispatcher) : Idle d (op.apply d) := by
  cases op with
  | keyDown e => exact absurd rfl hpress
  | takeCommands => exact absurd rfl htake
  | keyUp e => exact Dispatcher.idle_alongReleases.keyUp e d
  | activate name =>
    simp only [Operation.apply]
    cases h : d.setActiveContext name with
    | error fault => exact .of_table rfl rfl
    | ok d' => exact Dispatcher.idle_setActiveContext h
  | register r => exact .edited (.insertBinding r true d)
  | remove id => exact .edited (.deleteBinding id true d)
  | reset function => exact .edited (.resetFunction d function)
  | resetAll order =>
    simp only [Operation.apply]
    split
    · exact .edited (.resetFunctions order d)
    · exact .of_table rfl rfl
  | applyFile file byUser => exact .edited (edited_loadFile file byUser d)
  | load user => exact .edited (edited_loadKeybinds user d)
  | _ => exact .of_table rfl rfl

theorem eq_keyDown (hpress : op.isPress) : ∃ e, op = .keyDown e := by
  cases op with
  | keyDown e => exact ⟨e, rfl⟩
  | _ => cases hpress

theorem queues_eq_nil (hpress : ¬op.isPress) (d : Dispatcher) : op.queues d = [] := by
  cases op with
  | keyDown e => exact absurd rfl hpress
  | _ => rfl

/-- An operation queues its commands behind what waits, and there is one at most. -/
theorem queued_apply (hd : Regular d) (op : Operation) :
    (op ≠ .takeCommands → (op.apply d).queued = d.queued ++ (op.queues d).map (·.function)) ∧
      (op.queues d).length ≤ 1 := by
  by_cases hpress : op.isPress
  · obtain ⟨e, rfl⟩ := eq_keyDown hpress
    obtain ⟨hqueued, hlength, -⟩ := Dispatcher.queued_keyDown hd.sound hd.inOrder hd.commandsUp e
    exact ⟨fun _ => hqueued, hlength⟩
  · rw [queues_eq_nil hpress, List.map_nil, List.append_nil]
    exact ⟨fun htake => (idle_apply hpress htake d).queued, Nat.zero_le 1⟩

theorem regular_apply (hd : Regular d) (op : Operation) : Regular (op.apply d) := by
  refine ⟨sound_apply hd.sound op, sorted_run hd.inOrder [op], ?_⟩
  by_cases hpress : op.isPress
  · obtain ⟨e, rfl⟩ := eq_keyDown hpress
    exact (Dispatcher.queued_keyDown hd.sound hd.inOrder hd.commandsUp e).2.2
  · cases op with
    | takeCommands => exact hd.commandsUp
    | _ => exact hd.commandsUp.idle (idle_apply hpress (by simp) d)

theorem regular_run (hd : Regular d) (ops : List Operation) : Regular (Operation.run ops d) :=
  Operation.run_induction (P := Regular) (Q := fun _ => True) (fun _ op _ hd => regular_apply hd op)
    (fun _ _ => trivial) hd

/-! ### Runs -/

/-- A command is queued as often as there are operations of some kind at most, if no others queue it. -/
theorem timesQueued_le (hd : Regular d) {P : Operation → Bool} {ops : List Operation}
    (hP : ∀ before op after, ops = before ++ op :: after →
      (∃ b ∈ op.queues (Operation.run before d), b.id = id) → P op) :
    Operation.timesQueued id ops d ≤ ops.countP P := by
  induction ops generalizing d with
  | nil => exact Nat.le_refl 0
  | cons op ops ih =>
    have hrest := ih (regular_apply hd op) fun before op' after heq =>
      hP (op :: before) op' after (congrArg (op :: ·) heq)
    have hfirst : (op.queues d).countP (·.id = id) ≤ if P op then 1 else 0 := by
      split
      · exact List.countP_le_length.trans (queued_apply hd op).2
      · rename_i hnot
        refine Nat.le_of_eq (List.countP_eq_zero.mpr fun b hb hid => hnot ?_)
        exact hP [] op ops rfl ⟨b, hb, by simpa using hid⟩
    rw [Operation.timesQueued, List.countP_cons]
    omega

theorem isPress_of_queues {b : Binding} (hb : b ∈ op.queues d) : op.isPress := by
  cases op with
  | keyDown e => rfl
  | _ => cases hb

/-- Only presses queue commands, one at most at a time: the one that is offered the press with none before it that
deals with it.  So a repeated press leaves alone a command that may not repeat, just if another binding deals with the
press first or the command is not offered it at all.  Over a run a command is queued once for each press at most, and
once for each fresh one if no repeated press queues it. -/
theorem presses_queue_the_command_they_reach {start : Dispatcher} (hstart : start = {} ∨ start = engineDispatcher)
    (ops : List Operation) :
    (∀ op : Operation,
      (op ≠ .takeCommands → (op.apply (Operation.run ops start)).queued
        = (Operation.run ops start).queued ++ (op.queues (Operation.run ops start)).map (·.function)) ∧
      (op.queues (Operation.run ops start)).length ≤ 1 ∧
      ∀ b, b ∈ op.queues (Operation.run ops start) ↔ b.kind = .command ∧
        ∃ e m before after, op = .keyDown e ∧ (Operation.run ops start).fires? e = some m ∧
          (takenOver e (Operation.run ops start)).offered m = before ++ b :: after ∧
          PassedBy (readied m (takenOver e (Operation.run ops start))).1 e.isRepeat before
            (readied m (takenOver e (Operation.run ops start))).2) ∧
    ∀ (later : List Operation) (id : Nat),
      Operation.timesQueued id later (Operation.run ops start) ≤ later.countP (·.isPress) ∧
      ((∀ before op after, later = before ++ op :: after → op.isRepeat →
          ∀ b ∈ op.queues (Operation.run before (Operation.run ops start)), b.id ≠ id) →
        Operation.timesQueued id later (Operation.run ops start)
          ≤ later.countP fun op => op.isPress && !op.isRepeat) := by
  have hd := regular_run (regular_start hstart) ops
  generalize Operation.run ops start = d at hd ⊢
  refine ⟨fun op => ⟨(queued_apply hd op).1, (queued_apply hd op).2, fun b => ?_⟩, fun later id => ⟨?_, ?_⟩⟩
  · constructor
    · intro hb
      cases op with
      | keyDown e =>
        obtain ⟨hreached, hkind⟩ := List.mem_filter.mp hb
        obtain ⟨m, before, after, hrest⟩ := Dispatcher.mem_reached.mp hreached
        exact ⟨by simpa using hkind, e, m, before, after, rfl, hrest⟩
      | _ => cases hb
    · rintro ⟨hkind, e, m, before, after, rfl, hrest⟩
      have hreached := Dispatcher.mem_reached.mpr ⟨m, before, after, hrest⟩
      exact List.mem_filter.mpr ⟨hreached, by simpa using hkind⟩
  · exact timesQueued_le hd fun before op after _ ⟨b, hb, _⟩ => isPress_of_queues hb
  · intro hrepeats
    refine timesQueued_le hd fun before op after heq ⟨b, hb, hid⟩ => ?_
    rw [Bool.and_eq_true, Bool.not_eq_true', ← Bool.not_eq_true]
    exact ⟨isPress_of_queues hb, fun hrepeat => hrepeats before op after heq hrepeat b hb hid⟩

/-- A run that registers a command on F5. -/
def echoing : List Operation := [.register { function := "echo hello", kind := .command, base := .f5 }]

/-- The command of the run. -/
def echo : Binding where
  id := 0
  function := "echo hello"
  kind := .command
  combo := ⟨Combo.ofBytes Key.f5.code 0 0 0⟩
  canFocus := false
  canRepeat := false
  allowSubCombos := false
  priority := 0

theorem presses_queue_the_command_they_reach_echoing :
    ((Operation.keyDown { key := .f5 }).apply (Operation.run echoing {})).queued = ["echo hello"] ∧
      Operation.timesQueued 0
        [.keyDown { key := .f5 }, .keyDown { key := .f6, isRepeat := true }, .keyDown { key := .f5 }]
        (Operation.run echoing {}) ≤ 2 := by
  obtain ⟨hone, hrun⟩ := presses_queue_the_command_they_reach (.inl rfl) echoing
  have hfirst : (Operation.keyDown { key := .f5 }).queues (Operation.run echoing {}) = [echo] := by decide +kernel
  have hrepeated : (Operation.keyDown { key := .f6, isRepeat := true }).queues
      (Operation.run [.keyDown { key := .f5 }] (Operation.run echoing {})) = [] := by decide +kernel
  refine ⟨?_, (hrun _ 0).2 fun before op after heq hrepeat b hb => ?_⟩
  · rw [(hone (.keyDown { key := .f5 })).1 (by simp), hfirst]
    rfl
  · rcases before with _ | ⟨_, _ | ⟨_, _ | ⟨_, before⟩⟩⟩
    all_goals
      simp only [List.nil_append, List.cons_append, List.cons.injEq] at heq
    · rw [← heq.1] at hrepeat
      cases hrepeat
    · rw [← heq.1, ← heq.2.1, hrepeated] at hb
      cases hb
    · rw [← heq.2.2.1] at hrepeat
      cases hrepeat
    · simp at heq

/-- While its key is held, the command is queued again by each repeated press, though it may not repeat. -/
theorem held_key_queues_echo_again :
    echo ∈ (Operation.run (echoing ++ [.keyDown { key := .f5 }, .takeCommands]) {}).table.bindings ∧
      echo.kind = .command ∧ echo.canRepeat = false ∧
      (Operation.run (echoing ++ [.keyDown { key := .f5 }, .takeCommands]) {}).queued = [] ∧
      ((Operation.run (echoing ++ [.keyDown { key := .f5 }, .takeCommands]) {}).keyDown
        { key := .f5, isRepeat := true }).2.queued = ["echo hello"] ∧
      Operation.timesQueued 0 [.keyDown { key := .f5 }, .keyDown { key := .f5, isRepeat := true }]
        (Operation.run echoing {}) = 2 := by decide +kernel

end KeyConsole.Keybinds
