import KeyConsole.Proofs.Dispatch.ContextSwitch
import KeyConsole.Proofs.Dispatch.KeyEvents
import KeyConsole.Proofs.Keybinds.Layering

/-!
# Proofs.Keybinds.Operation: runs of operations on a dispatcher

An operation is whatever can be done to a dispatcher from outside; one that fails changes nothing.  Every run
from a fresh dispatcher, or from the one with the functions and contexts that are there from the start, stays
sound.
-/

namespace KeyConsole.Keybinds

open Dispatch
open Keyboard (Event EventKind)

/-- What can be done to a dispatcher. -/
inductive Operation where
  | keyDown (e : Event)
  | keyUp (e : Event)
  | enable (on : Bool)
  /-- Make a context active. -/
  | activate (name : String)
  | registerFunction (function : String)
  | register (r : Registration)
  | remove (id : Nat)
  | reset (function : String)
  /-- Reset what is modified, in some order. -/
  | resetAll (order : List String)
  | applyFile (file : KeybindFile) (byUser : Bool)
  /-- Load the user's file, if there is one, and the shipped one. -/
  | load (user : Option KeybindFile)
  | takeCommands
  | createContext (name : String) (parent : Option String)
  | removeContext (name : String)
  | addFunction (context function : String)
  | removeFunction (context function : String)
  /-- Make a context active in the tree only, so that nothing is released. -/
  | redirect (name : String)
  | setInterface (ui : UserInterface)
  | setHook (hook : Event → EventKind → Bool)
  | addListener (l : Listener)
  | bind (owner : String) (binds : List Bind)
  | unbind (owner : String)
  /-- Ask for the handlers of a function. -/
  | ask (function : String)
  | resolve

namespace Operation

/-- The dispatcher after an operation. -/
def apply (d : Dispatcher) : Operation → Dispatcher
  | keyDown e => (d.keyDown e).2
  | keyUp e => (d.keyUp e).2
  | enable on => { d with enabled := on }
  | activate name => (d.setActiveContext name).toOption.getD d
  | registerFunction function => d.registerFunction function
  | register r => (d.registerBinding r).elim d (·.2)
  | remove id => (d.removeBinding id).elim d (·.2)
  | reset function => d.resetFunction function
  | resetAll order => if order.isPerm d.modified then d.resetFunctions order else d
  | applyFile file byUser => (loadFile file byUser d).2
  | load user => loadKeybinds user d
  | takeCommands => d.takeCommands.2
  | createContext name parent => { d with contexts := (d.contexts.create name parent).toOption.getD d.contexts }
  | removeContext name => { d with contexts := (d.contexts.remove name).toOption.getD d.contexts }
  | addFunction context function => { d with contexts := d.contexts.addFunction context function }
  | removeFunction context function => { d with contexts := d.contexts.removeFunction context function }
  | redirect name => { d with contexts := ((d.contexts.setActive name).toOption.map (·.2)).getD d.contexts }
  | setInterface ui => { d with ui := some ui }
  | setHook hook => { d with hook := some hook }
  | addListener l => { d with listeners := d.listeners ++ [l] }
  | bind owner binds => { d with registry := (d.registry.register owner binds).toOption.getD d.registry }
  | unbind owner => { d with registry := d.registry.unregister owner }
  | ask function => { d with registry := (d.registry.handlersFor function).2 }
  | resolve => { d with registry := d.registry.tryResolve.2 }

/-- The dispatcher after some operations. -/
def run (ops : List Operation) (d : Dispatcher) : Dispatcher := ops.foldl apply d

/-- The operation neither withdraws a function from a context nor makes one active behind the dispatcher's
back. -/
def isOrdinary : Operation → Bool
  | removeFunction .. | redirect _ => false
  | _ => true

/-- What every operation of some kind keeps, a run of such operations keeps. -/
theorem run_induction {P : Dispatcher → Prop} {Q : Operation → Prop}
    (step : ∀ d op, Q op → P d → P (apply d op)) {ops : List Operation} (hops : ∀ op ∈ ops, Q op)
    {d : Dispatcher} (hd : P d) : P (run ops d) := by
  induction ops generalizing d with
  | nil => exact hd
  | cons op ops ih =>
    exact ih (fun op' h => hops op' (List.mem_cons_of_mem op h)) (step d op (hops op List.mem_cons_self) hd)

end Operation

/-! ### Sound runs -/

variable {d : Dispatcher}

theorem sound_empty : Dispatcher.Sound {} :=
  ⟨List.nodup_nil, by simp, by simp, .nil, by simp⟩

theorem planted_engineContexts : Planted engineContexts := by
  refine .snoc (.snoc (.snoc (.snoc .nil ?_ ?_) ?_ ?_) ?_ ?_) ?_ ?_
  all_goals simp [commonContext]

theorem sound_engineDispatcher : engineDispatcher.Sound :=
  ⟨List.nodup_nil, by simp [engineDispatcher], by simp [engineDispatcher], planted_engineContexts, by
    rintro a ⟨⟩
    decide⟩

theorem sound_start (h : d = {} ∨ d = engineDispatcher) : d.Sound := by
  rcases h with rfl | rfl
  · exact sound_empty
  · exact sound_engineDispatcher

/-- Every operation is an edit, a key event, a switch of the context, a change of the tree, or of no matter to
bindings and contexts. -/
theorem sound_apply (hs : d.Sound) (op : Operation) : (op.apply d).Sound := by
  have hcontexts : ∀ {cs : Contexts}, cs.Sound → Dispatcher.Sound { d with contexts := cs } :=
    fun hcs => ⟨hs.distinct, hs.fresh, hs.packed, hcs⟩
  cases op with
  | keyDown e => exact hs.keyed (Dispatcher.keyed_keyDown e d)
  | keyUp e => exact hs.keyed (Dispatcher.keyed_keyUp e d)
  | activate name =>
    simp only [Operation.apply]
    cases h : d.setActiveContext name with
    | error fault => exact hs
    | ok d' => exact hs.setActiveContext h
  | register r => exact hs.edited (.insertBinding r true d)
  | remove id => exact hs.edited (.deleteBinding id true d)
  | reset function => exact hs.edited (.resetFunction d function)
  | resetAll order =>
    simp only [Operation.apply]
    split
    · exact hs.edited (.resetFunctions order d)
    · exact hs
  | applyFile file byUser => exact hs.edited (edited_loadFile file byUser d)
  | load user => exact hs.edited (edited_loadKeybinds user d)
  | createContext name parent =>
    refine hcontexts ?_
    cases h : d.contexts.create name parent with
    | error fault => exact hs.tree
    | ok cs => exact hs.tree.create h
  | removeContext name =>
    refine hcontexts ?_
    cases h : d.contexts.remove name with
    | error fault => exact hs.tree
    | ok cs => exact hs.tree.remove h
  | addFunction context function =>
    refine hcontexts (hs.tree.update (fun c => ?_) fun c => ?_)
    · exact c.name_add function
    · exact c.parent_add function
  | removeFunction context function => exact hcontexts (hs.tree.update (fun _ => rfl) fun _ => rfl)
  | redirect name =>
    refine hcontexts ?_
    cases h : d.contexts.setActive name with
    | error fault => exact hs.tree
    | ok p => exact hs.tree.setActive h
  | _ => exact ⟨hs.distinct, hs.fresh, hs.packed, hs.tree⟩

theorem sound_run (hs : d.Sound) (ops : List Operation) : (Operation.run ops d).Sound :=
  Operation.run_induction (P := Dispatcher.Sound) (Q := fun _ => True) (fun _ op _ hs => sound_apply hs op)
    (fun _ _ => trivial) hs

/-! ### What an operation can do -/

/-- An operation makes edits, is a key event or a switch of the context, or leaves bindings and journal as they
are. -/
theorem apply_cases (d : Dispatcher) (op : Operation) :
    Dispatcher.Edited d (op.apply d) ∨ (∃ e, op = .keyDown e) ∨ (∃ e, op = .keyUp e) ∨
      (∃ name d', op = .activate name ∧ d.setActiveContext name = .ok d' ∧ op.apply d = d') ∨
      (op.apply d).table = d.table ∧ (op.apply d).nextId = d.nextId ∧ (op.apply d).journal = d.journal := by
  cases op with
  | keyDown e => exact .inr (.inl ⟨e, rfl⟩)
  | keyUp e => exact .inr (.inr (.inl ⟨e, rfl⟩))
  | activate name =>
    cases h : d.setActiveContext name with
    | error fault => simp [Operation.apply, h, Except.toOption]
    | ok d' => exact .inr (.inr (.inr (.inl ⟨name, d', rfl, h, by simp [Operation.apply, h, Except.toOption]⟩)))
  | register r => exact .inl (.insertBinding r true d)
  | remove id => exact .inl (.deleteBinding id true d)
  | reset function => exact .inl (.resetFunction d function)
  | resetAll order =>
    refine .inl ?_
    simp only [Operation.apply]
    split
    · exact .resetFunctions order d
    · exact .refl
  | applyFile file byUser => exact .inl (edited_loadFile file byUser d)
  | load user => exact .inl (edited_loadKeybinds user d)
  | _ => exact .inr (.inr (.inr (.inr ⟨rfl, rfl, rfl⟩)))

/-! ### Tables in order -/

/-- Every operation edits, or leaves the bindings as they are but for their states. -/
theorem alike_or_edited (d : Dispatcher) (op : Operation) :
    d.table.Alike (op.apply d).table ∨ Dispatcher.Edited d (op.apply d) := by
  rcases apply_cases d op with hedited | ⟨e, rfl⟩ | ⟨e, rfl⟩ | ⟨name, d', rfl, h, happly⟩ | ⟨htable, -, -⟩
  · exact .inr hedited
  · exact .inl (Dispatcher.keyed_keyDown e d).alike
  · exact .inl (Dispatcher.keyed_keyUp e d).alike
  · exact .inl (happly ▸ Dispatcher.alike_setActiveContext h)
  · exact .inl (htable ▸ .refl _)

theorem sorted_start (h : d = {} ∨ d = engineDispatcher) : d.table.Sorted := by
  rcases h with rfl | rfl
  · exact List.Pairwise.nil
  · exact List.Pairwise.nil

theorem sorted_run (hd : d.table.Sorted) (ops : List Operation) : (Operation.run ops d).table.Sorted := by
  refine Operation.run_induction (P := fun d => d.table.Sorted) (Q := fun _ => True) (fun d op _ hd => ?_)
    (fun _ _ => trivial) hd
  rcases alike_or_edited d op with h | h
  · exact h.sorted hd
  · exact Dispatcher.sorted_edited h hd

end KeyConsole.Keybinds
