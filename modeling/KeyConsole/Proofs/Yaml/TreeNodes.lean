import KeyConsole.Proofs.Yaml.NumberText
import KeyConsole.Yaml.Decoding
import KeyConsole.Yaml.Writing
import Mathlib.Data.List.Nodup

/-!
# Proofs.Yaml.TreeNodes: trees as nodes of a document

`Tree.node` is what a tree says: the node that its text stands for.  Decoders read back from it what the tree was
made of.
-/

namespace KeyConsole.Yaml

mutual

/-- The node that a tree stands for. -/
def Tree.node : Tree → Node
  | .word s => .text none .plain s
  | .text s => .text none (styleOf s) s
  | .list items => .sequence (Tree.itemNodes items)
  | .fields entries => .mapping (Tree.entryNodes entries)

/-- The nodes of some items. -/
def Tree.itemNodes : List Tree → List Node
  | [] => []
  | t :: rest => t.node :: Tree.itemNodes rest

/-- The nodes of some fields. -/
def Tree.entryNodes : List (String × Tree) → List (Node × Node)
  | [] => []
  | (name, t) :: rest => (.text none .plain name, t.node) :: Tree.entryNodes rest

end

/-! ### Equality of nodes -/

mutual

/-- Two nodes are the same. -/
def Node.same : Node → Node → Bool
  | .text tag style s, .text tag' style' s' => tag = tag' && style = style' && s = s'
  | .sequence items, .sequence items' => Node.sameItems items items'
  | .mapping entries, .mapping entries' => Node.sameEntries entries entries'
  | .alias number, .alias number' => number = number'
  | _, _ => false

/-- Two lists of items are the same. -/
def Node.sameItems : List Node → List Node → Bool
  | [], [] => true
  | n :: ns, m :: ms => n.same m && Node.sameItems ns ms
  | _, _ => false

/-- Two lists of entries are the same. -/
def Node.sameEntries : List (Node × Node) → List (Node × Node) → Bool
  | [], [] => true
  | (k, n) :: ns, (l, m) :: ms => k.same l && n.same m && Node.sameEntries ns ms
  | _, _ => false

end

mutual

theorem Node.eq_of_same : ∀ {n m : Node}, n.same m → n = m
  | .text .., .text .., h => by
    simp only [same, Bool.and_eq_true, decide_eq_true_eq] at h
    rw [h.1.1, h.1.2, h.2]
  | .sequence items, .sequence items', h => by
    rw [Node.eq_of_sameItems (show Node.sameItems items items' from h)]
  | .mapping entries, .mapping entries', h => by
    rw [Node.eq_of_sameEntries (show Node.sameEntries entries entries' from h)]
  | .alias .., .alias .., h => by
    rw [show _ = _ from of_decide_eq_true h]

theorem Node.eq_of_sameItems : ∀ {ns ms : List Node}, Node.sameItems ns ms → ns = ms
  | [], [], _ => rfl
  | n :: ns, m :: ms, h => by
    simp only [sameItems, Bool.and_eq_true] at h
    rw [Node.eq_of_same h.1, Node.eq_of_sameItems h.2]

theorem Node.eq_of_sameEntries : ∀ {ns ms : List (Node × Node)}, Node.sameEntries ns ms → ns = ms
  | [], [], _ => rfl
  | (k, n) :: ns, (l, m) :: ms, h => by
    simp only [sameEntries, Bool.and_eq_true] at h
    rw [Node.eq_of_same h.1.1, Node.eq_of_same h.1.2, Node.eq_of_sameEntries h.2]

end

/-- A document without anchors is its root. -/
theorem Document.eq_some_of_same {d? : Option Document} {n : Node}
    (h : d?.any fun d => d.anchored.isEmpty && d.root.same n) : d? = some { root := n } := by
  obtain ⟨⟨root, anchored⟩, rfl, hsame⟩ := (Option.any_eq_true _ _).mp h
  rw [Bool.and_eq_true, List.isEmpty_iff] at hsame
  have hanchored : anchored = [] := hsame.1
  have hroot : root = n := Node.eq_of_same hsame.2
  rw [hanchored, hroot]

/-- What is written of a tree is read as the node that the tree stands for, without anchors. -/
def RoundTrips (parse : String → Option Document) (write : Tree → String) (t : Tree) : Prop :=
  parse (write t) = some { root := t.node }

/-! ### Fields that may be left out -/

/-- The fields that are there. -/
def present (parts : List (String × Option Tree)) : List (String × Tree) :=
  parts.flatMap fun p => (p.2.map fun t => (p.1, t)).toList

theorem present_cons (name : String) (t : Option Tree) (parts : List (String × Option Tree)) :
    present ((name, t) :: parts) = (t.map fun t => (name, t)).toList ++ present parts := rfl

theorem sublist_present (parts : List (String × Option Tree)) :
    ((present parts).map (·.1)).Sublist (parts.map (·.1)) := by
  induction parts with
  | nil => exact .slnil
  | cons p parts ih =>
    obtain ⟨name, t⟩ := p
    rw [present_cons, List.map_append, List.map_cons]
    cases t with
    | none => exact ih.cons name
    | some t => exact ih.cons_cons name

theorem lookup_present {parts : List (String × Option Tree)} (h : (parts.map (·.1)).Nodup) (name : String) :
    (present parts).lookup name = (parts.lookup name).join := by
  induction parts with
  | nil => rfl
  | cons p parts ih =>
    obtain ⟨n, t⟩ := p
    obtain ⟨hn, hparts⟩ := List.nodup_cons.mp h
    rw [present_cons, List.lookup_cons]
    cases t with
    | none =>
      rw [Option.map_none, Option.toList_none, List.nil_append, ih hparts]
      by_cases hname : name = n
      · subst hname
        -- the name does not come again
        have hnone : parts.lookup name = none := by
          rw [List.lookup_eq_none_iff]
          intro p hp
          rw [bne_iff_ne]
          intro heq
          exact hn (List.mem_map.mpr ⟨p, hp, heq.symm⟩)
        rw [hnone, beq_self_eq_true]
        rfl
      · rw [beq_false_of_ne hname]
    | some t =>
      rw [Option.map_some, Option.toList_some, List.singleton_append, List.lookup_cons, ih hparts]
      cases name == n <;> rfl

namespace Decoder

/-! ### Texts and words -/

theorem text_node (s : String) : text (Tree.text s).node = pure s := rfl

/-- A text that is written is there, for one that could be taken for nothing is quoted. -/
theorem optionalText_node (s : String) : optionalText (Tree.text s).node = pure (some s) := by
  have hplain : styleOf s = .plain → (s.isEmpty || isNull s) = false := by
    intro h
    unfold styleOf at h
    simp only at h
    split_ifs at h with hbreak hblock hshape
    simp only [isAmbiguous, Bool.and_eq_true, Bool.not_eq_true', Bool.or_eq_false_iff] at hshape
    rw [hshape.2.1.1.1.1.1.1, hshape.2.1.1.1.1.1.2]
    rfl
  show optionalText (.text none (styleOf s) s) = pure (some s)
  cases h : styleOf s with
  | plain =>
    show (pure (if s.isEmpty || isNull s then none else some s) : Decode (Option String)) = pure (some s)
    rw [hplain h]
    rfl
  | _ => rfl

theorem flag_true : flag (Tree.word "true").node = pure true := rfl

theorem natural_node {bound n : Nat} (h : n < bound) :
    natural bound (Tree.word (Decimal.natText n)).node = pure n := by
  have hread : (natural? (Decimal.natText n)).filter (· < bound) = some n := by
    rw [natural?_natText]
    simp [h]
  show given ((natural? (Decimal.natText n)).filter (· < bound)) = pure n
  rw [hread]
  rfl

theorem integer_node {bits : Nat} {n : Int} (hlow : -Int.pow 2 (bits - 1) ≤ n)
    (hhigh : n < Int.pow 2 (bits - 1)) :
    integer bits (Tree.word (Decimal.intText n)).node = pure n := by
  have hread : (integer? (Decimal.intText n)).filter
      (fun m => -Int.pow 2 (bits - 1) ≤ m && m < Int.pow 2 (bits - 1)) = some n := by
    rw [integer?_intText]
    simp only [Option.filter_some, hlow, hhigh, decide_true, Bool.and_self, if_true]
  show given ((integer? (Decimal.intText n)).filter _) = pure n
  rw [hread]
  rfl

/-! ### Lists and fields -/

theorem list_node {α : Type} {item : Decoder α} {tree : α → Tree} {xs : List α}
    (h : ∀ x ∈ xs, item (tree x).node = pure x) : list item (Tree.list (xs.map tree)).node = pure xs := by
  show (Tree.itemNodes (xs.map tree)).mapM item = pure xs
  induction xs with
  | nil => rfl
  | cons x xs ih =>
    obtain ⟨hx, hxs⟩ := List.forall_mem_cons.mp h
    rw [List.map_cons, Tree.itemNodes, List.mapM_cons, hx, ih hxs]
    rfl

theorem mapM_entryNodes (entries : List (String × Tree)) :
    ((Tree.entryNodes entries).mapM fun (key, value) => do return (← text key, value) : Decode _)
      = pure (entries.map fun e => (e.1, e.2.node)) := by
  induction entries with
  | nil => rfl
  | cons e es ih =>
    obtain ⟨name, t⟩ := e
    rw [Tree.entryNodes, List.mapM_cons, ih]
    rfl

/-- The fields of a tree are found by their names. -/
theorem fields_node {α : Type} {known : List String} {read : (String → Option Node) → Decode α}
    {entries : List (String × Tree)} (h : (entries.map (·.1)).Nodup) :
    fields known read (Tree.fields entries).node = read fun name => (entries.lookup name).map Tree.node := by
  have honce : (known.any fun k => ((entries.map fun e => (e.1, e.2.node)).countP (·.1 = k)) > 1) = false := by
    rw [List.any_eq_false]
    intro k _
    have hcount : (entries.map fun e => (e.1, e.2.node)).countP (·.1 = k) = (entries.map (·.1)).count k := by
      rw [List.countP_map, List.count, List.countP_map]
      rfl
    have hle := List.nodup_iff_count_le_one.mp h k
    rw [hcount]
    simp only [gt_iff_lt, decide_eq_true_eq]
    omega
  have hlookup : ∀ name, (entries.map fun e => (e.1, e.2.node)).lookup name = (entries.lookup name).map Tree.node := by
    intro name
    clear h honce
    induction entries with
    | nil => rfl
    | cons e es ih =>
      rw [List.map_cons, List.lookup_cons, List.lookup_cons, ih]
      cases name == e.1 <;> rfl
  unfold fields
  simp only [Tree.node, followed, pure_bind]
  rw [mapM_entryNodes, pure_bind]
  simp only [honce, Bool.false_eq_true, if_false, hlookup]

end Decoder

end KeyConsole.Yaml
