import KeyConsole.Keybinds.Document
import KeyConsole.Proofs.Yaml.TreeNodes

/-!
# Proofs.Keybinds.WrittenFile: keybind files come back from the trees they are written as

What is left out in writing is what reading puts in its place.
-/

namespace KeyConsole.Keybinds

open Yaml (Decoder Decode Node Tree present)
open Dispatch (BindingKind)

/-! ### Fields -/

theorem orElse_modifier (m : Option String) :
    Decoder.optionalText.orElse none ((m.map Tree.text).map Yaml.Tree.node) = pure m := by
  cases m with
  | none => rfl
  | some s => exact Decoder.optionalText_node s

theorem orElse_flag (on : Bool) :
    Decoder.flag.orElse false ((if on then some (Tree.word "true") else none).map Yaml.Tree.node) = pure on := by
  cases on with
  | false => rfl
  | true => exact Decoder.flag_true

theorem ofName?_name (k : BindingKind) : BindingKind.ofName? k.name = some k := by
  cases k <;> decide

theorem orElse_kind (k : BindingKind) :
    (Decoder.word BindingKind.ofName?).orElse .state
      ((if k = .state then none else some (Tree.text k.name)).map Yaml.Tree.node) = pure k := by
  by_cases h : k = .state
  · subst h
    rfl
  · rw [if_neg h]
    show Decoder.given (BindingKind.ofName? k.name) = pure k
    rw [ofName?_name]
    rfl

theorem orElse_priority {n : Int} (hlow : -Int.pow 2 31 ≤ n) (hhigh : n < Int.pow 2 31) :
    (Decoder.integer 32).orElse 0
      ((if n = 0 then none else some (Tree.word (Decimal.intText n))).map Yaml.Tree.node) = pure n := by
  by_cases h : n = 0
  · subst h
    rfl
  · rw [if_neg h]
    exact Decoder.integer_node hlow hhigh

/-! ### Entries -/

/-- The fields of an entry, those left out as well. -/
def Entry.parts (e : Entry) : List (String × Option Tree) := [
  ("function", some (.text e.function)), ("key", some (.text e.key)),
  ("mod1", e.mod1.map .text), ("mod2", e.mod2.map .text), ("mod3", e.mod3.map .text),
  ("type", if e.kind = .state then none else some (.text e.kind.name)),
  ("canFocus", if e.canFocus then some (.word "true") else none),
  ("canRepeat", if e.canRepeat then some (.word "true") else none),
  ("allowSubCombs", if e.allowSubCombos then some (.word "true") else none),
  ("priority", if e.priority = 0 then none else some (.word (Decimal.intText e.priority)))]

theorem Entry.nodup_parts (e : Entry) : (e.parts.map (·.1)).Nodup := by
  show ["function", "key", "mod1", "mod2", "mod3", "type", "canFocus", "canRepeat", "allowSubCombs",
    "priority"].Nodup
  decide

theorem Entry.tree_eq (e : Entry) : e.tree = .fields (present e.parts) := by
  have hmodifier : ∀ (name : String) (m : Option String),
      m.toList.map (fun m => (name, Tree.text m)) = ((m.map Tree.text).map fun t => (name, t)).toList := by
    intro name m
    cases m <;> rfl
  have hflag : ∀ (name : String) (on : Bool), (if on then [(name, Tree.word "true")] else [])
      = ((if on then some (Tree.word "true") else none).map fun t => (name, t)).toList := by
    intro name on
    cases on <;> rfl
  have hunless : ∀ (p : Prop) [Decidable p] (name : String) (t : Tree), (if p then [] else [(name, t)])
      = ((if p then none else some t).map fun t => (name, t)).toList := by
    intro p _ name t
    split <;> rfl
  unfold tree parts
  simp only [hmodifier, hflag, hunless, Yaml.present_cons, List.append_assoc]
  simp [present]

/-- An entry comes back from its tree. -/
theorem Entry.decoder_tree {e : Entry} (hlow : -Int.pow 2 31 ≤ e.priority) (hhigh : e.priority < Int.pow 2 31) :
    Entry.decoder e.tree.node = pure e := by
  have hnodup : ((present e.parts).map (·.1)).Nodup := e.nodup_parts.sublist (Yaml.sublist_present _)
  rw [e.tree_eq, Entry.decoder, Decoder.fields_node hnodup]
  simp only [Yaml.lookup_present e.nodup_parts]
  simp only [Entry.parts, List.lookup_cons, String.reduceBEq, Option.join_some, Option.map_some,
    Decoder.given, Decoder.text_node, orElse_modifier, orElse_kind, orElse_flag, orElse_priority hlow hhigh,
    pure_bind]

/-! ### Files -/

/-- The fields of a file, those left out as well. -/
def KeybindFile.parts (f : KeybindFile) : List (String × Option Tree) := [
  ("version", some (.word (Decimal.natText f.version))), ("binds", some (.list (f.entries.map Entry.tree))),
  ("leaveEmpty", if f.leaveEmpty.isEmpty then none else some (.list (f.leaveEmpty.map .text)))]

theorem KeybindFile.nodup_parts (f : KeybindFile) : (f.parts.map (·.1)).Nodup := by
  show ["version", "binds", "leaveEmpty"].Nodup
  decide

theorem KeybindFile.tree_eq (f : KeybindFile) : f.tree = .fields (present f.parts) := by
  unfold tree parts
  rw [Yaml.present_cons, Yaml.present_cons, Yaml.present_cons]
  cases f.leaveEmpty <;> rfl

theorem orElse_names (names : List String) :
    (Decoder.list Decoder.text).orElse []
      ((if names.isEmpty then none else some (Tree.list (names.map .text))).map Yaml.Tree.node) = pure names := by
  cases names with
  | nil => rfl
  | cons n ns => exact Decoder.list_node fun s _ => Decoder.text_node s

/-- A file comes back from its tree, if its numbers fit. -/
theorem KeybindFile.decoder_tree {f : KeybindFile} (hversion : f.version < Nat.pow 2 32)
    (hpriority : ∀ e ∈ f.entries, -Int.pow 2 31 ≤ e.priority ∧ e.priority < Int.pow 2 31) :
    KeybindFile.decoder f.tree.node = pure f := by
  have hnodup : ((present f.parts).map (·.1)).Nodup := f.nodup_parts.sublist (Yaml.sublist_present _)
  have hentries : (Decoder.list Entry.decoder) (Tree.list (f.entries.map Entry.tree)).node = pure f.entries :=
    Decoder.list_node fun e he => Entry.decoder_tree (hpriority e he).1 (hpriority e he).2
  rw [f.tree_eq, KeybindFile.decoder, Decoder.fields_node hnodup]
  simp only [Yaml.lookup_present f.nodup_parts]
  simp only [KeybindFile.parts, List.lookup_cons, String.reduceBEq, Option.join_some, Option.map_some,
    Decoder.orElse, Option.elim_some, Decoder.natural_node hversion, hentries, pure_bind]
  rw [← Decoder.orElse, orElse_names, pure_bind]

/-- A file of the version in use is read back from what is written of it, if its tree comes back. -/
theorem KeybindFile.readBy_written {parse : String → Option Yaml.Document} {write : Tree → String} {f : KeybindFile}
    (hversion : f.version = fileVersion)
    (hpriority : ∀ e ∈ f.entries, -Int.pow 2 31 ≤ e.priority ∧ e.priority < Int.pow 2 31)
    (htext : Yaml.RoundTrips parse write f.tree) : KeybindFile.readBy parse (write f.tree) = .ok f := by
  have hfits : f.version < Nat.pow 2 32 := by
    rw [hversion]
    decide
  have hdecode : Yaml.Document.decode? KeybindFile.decoder { root := f.tree.node } = some f := by
    unfold Yaml.Document.decode?
    dsimp only
    rw [KeybindFile.decoder_tree hfits hpriority]
    rfl
  rw [KeybindFile.readBy, htext, Option.bind_some, hdecode]
  simp [hversion]

end KeyConsole.Keybinds
