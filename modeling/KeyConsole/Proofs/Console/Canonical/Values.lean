import KeyConsole.Proofs.Console.BalancedBlocks
import KeyConsole.Proofs.Console.Canonical.ReadBack

/-!
# Proofs.Console.Canonical.Values: values and types read back from their texts

A list is written with its items between brackets and commas, the texts among them in double quotes.  Items are read by
their form alone, and each is read back whatever stands behind it, so the list is.
-/

namespace KeyConsole.Console

open Ordered (NameMap)
open Text (size isBlank)
open Reading

/-! ### Texts in double quotes -/

/-- Between double quotes the character stands for itself, or behind a backslash in one of the ways that are read. -/
def isQuotable (x : Char) : Bool :=
  [[x], ['\\', '"'], ['\\', '\\'], ['\\', 'n'], ['\\', 't']].contains (Text.escape x)

theorem unquote?_escape {x : Char} (h : isQuotable x = true) (more : List Char) :
    Literal.unquote? (Text.escape x ++ more) = (Literal.unquote? more).map fun read => (x :: read.1, read.2) := by
  have hmem := List.contains_iff_mem.mp h
  by_cases hquote : x = '"'
  · subst hquote
    rfl
  by_cases hslash : x = '\\'
  · subst hslash
    rfl
  by_cases hnewline : x = '\n'
  · subst hnewline
    rfl
  by_cases htab : x = '\t'
  · subst htab
    rfl
  have hplain : Text.escape x = [x] := by
    unfold Text.escape at hmem ⊢
    rw [if_neg hquote, if_neg hslash, if_neg hnewline, if_neg htab] at hmem ⊢
    split_ifs at hmem ⊢ with hreturn hzero hhidden
    · simp at hmem
    · simp at hmem
    · simp at hmem
    · rfl
  rw [hplain]
  exact unquote?_plain hquote hslash more

namespace Value

/-! ### Lists as they are written -/

/-- The text of a value in a list. -/
def itemText (v : Value) : List Char := (v.write true).toList

/-- The texts of the items of a list, with commas between them. -/
def itemsText : List Value → List Char
  | [] => []
  | [v] => v.itemText
  | v :: w :: rest => v.itemText ++ (',' :: ' ' :: itemsText (w :: rest))

theorem toList_writeItems (text : String) (vs : List Value) :
    (writeItems text vs).toList = text.toList ++ itemsText vs := by
  induction vs generalizing text with
  | nil => rw [writeItems, itemsText, List.append_nil]
  | cons v rest ih =>
    cases rest with
    | nil =>
      rw [writeItems, itemsText, String.toList_append]
      rfl
    | cons w rest =>
      rw [writeItems, itemsText, ih]
      simp [itemText]

theorem itemText_list (vs : List Value) : (list vs).itemText = '[' :: (itemsText vs ++ [']']) := by
  unfold itemText
  rw [write, String.toList_append, toList_writeItems]
  rfl

mutual

/-- An integer, a truth value, a text of quotable characters, or a list of such values. -/
def isReadBack : Value → Bool
  | int _ => true
  | bool _ => true
  | string s => s.toList.all isQuotable
  | list items => allReadBack items
  | void => false
  | float _ => false

/-- All values of a list are read back. -/
def allReadBack : List Value → Bool
  | [] => true
  | v :: rest => v.isReadBack && allReadBack rest

end

variable {c : Cursor} {closers : List Char} {known : NameMap ValueType} {more : List Char} {vs : List Value}

/-! ### Single values -/

/-- The text of the value begins no list's end, and wherever it stands in a list, the value is read by its form. -/
structure ReadsBack (v : Value) : Prop where
  begins : BeginsWithout [']'] v.itemText
  read : ∀ ⦃c : Cursor⦄ ⦃closers : List Char⦄ ⦃known : NameMap ValueType⦄ ⦃more : List Char⦄ ⦃depth : Nat⦄,
    c.Faces closers known (v.itemText ++ more) → StopsAt isLiteralChar more → v.itemText.length < depth →
      Succeeds c (Literal.nested depth .any) fun u e => u = v ∧ e.Faces closers known more

/-- The marks that begin a list or a text in quotes, and the one that ends a list. -/
abbrev formMarks : List Char := ['[', '"', ']']

theorem begins_word {w : List Char} (hne : w ≠ []) (hw : ∀ x ∈ w, isLiteralChar x = true) :
    BeginsWithout formMarks w := by
  cases w with
  | nil => exact absurd rfl hne
  | cons x w =>
    have hx := hw x List.mem_cons_self
    exact ⟨x, w, rfl, isBlank_of_isLiteralChar hx, not_mem_of_test hx (by decide)⟩

/-- A bare word is read as the first that it can be. -/
theorem ReadsBack.of_word {v : Value} (hne : v.itemText ≠ []) (hletters : ∀ x ∈ v.itemText, isLiteralChar x = true)
    (hvalue : Literal.ofWord (String.ofList v.itemText) = v) : v.ReadsBack := by
  refine ⟨(begins_word hne hletters).mono (by decide), fun c closers known more depth hfaces hmore hdepth => ?_⟩
  cases depth with
  | zero => omega
  | succ depth =>
    have hbegins := (begins_word hne hletters).append more
    have hthere := hfaces.skipNone hbegins.stopsAt_isBlank
    obtain ⟨hword, hbehind⟩ := (hthere.skipNone hbegins.stopsAt_isBlank).word hne hletters hmore
    unfold Literal.nested
    refine Succeeds.move (Succeeds.look ?_)
    rw [hthere.peek]
    split
    · rename_i hhead
      exact absurd hhead (hbegins.head?_ne (by decide))
    · rename_i hhead
      exact absurd hhead (hbegins.head?_ne (by decide))
    · refine Succeeds.look (Succeeds.step ?_)
      rw [hword]
      exact Succeeds.pure ⟨hvalue, hbehind⟩

theorem readsBack_int (n : Int64) : (int n).ReadsBack := by
  have hint : Literal.int? (Decimal.intText n.toInt) = some n := by
    unfold Literal.int?
    rw [Decimal.readInt_intText]
    rfl
  refine .of_word (Decimal.intText_ne_nil n.toInt) (fun _ => isLiteralChar_of_mem_intText) ?_
  unfold itemText
  rw [write, String.ofList_toList, Literal.ofWord, hint]

theorem readsBack_bool (b : Bool) : (bool b).ReadsBack := by
  cases b with
  | true => exact .of_word (by decide) (List.all_eq_true.mp (by decide)) rfl
  | false => exact .of_word (by decide) (List.all_eq_true.mp (by decide)) rfl

theorem readsBack_string {s : String} (h : s.toList.all isQuotable = true) : (string s).ReadsBack := by
  have htext : ∀ more, (string s).itemText ++ more = '"' :: (s.toList.flatMap Text.escape ++ '"' :: more) := by
    intro more
    unfold itemText
    rw [write, if_pos rfl, Text.quoted, String.toList_ofList, List.cons_append, List.cons_append, List.append_assoc]
    rfl
  refine ⟨⟨'"', _, (List.append_nil _).symm.trans (htext []), by decide⟩, ?_⟩
  intro c closers known more depth hfaces hmore hdepth
  cases depth with
  | zero => omega
  | succ depth =>
    rw [htext] at hfaces
    have hthere := hfaces.skipNone (by rintro x ⟨⟩; decide)
    have hwritten := unquote?_flatMap fun x hx => unquote?_escape (List.all_eq_true.mp h x hx)
    unfold Literal.nested
    refine Succeeds.move (Succeeds.look ?_)
    rw [hthere.peek]
    exact Literal.succeeds_quoted hwritten hthere

/-! ### Lists -/

/-- The scan for a closing bracket passes over an item: what reading an item passes is balanced. -/
theorem ReadsBack.balanced {v : Value} (h : v.ReadsBack) : Cursor.Balanced v.itemText := by
  have hfaces := Cursor.faces_ofSource (String.ofList v.itemText)
  rw [String.toList_ofList, ← List.append_nil v.itemText] at hfaces
  obtain ⟨u, hu, -, hend⟩ := h.read hfaces (by rintro x ⟨⟩) (Nat.lt_succ_self _)
  obtain ⟨text, hpassed, hbalanced⟩ := Literal.balanced_nested _ _ u hu
  have htext := hpassed.rest
  rw [hfaces.rest, hend.rest] at htext
  rw [List.append_cancel_right htext]
  exact hbalanced

theorem balanced_itemsText (h : ∀ v ∈ vs, v.ReadsBack) : Cursor.Balanced (itemsText vs) := by
  induction vs with
  | nil => exact .nil
  | cons v rest ih =>
    obtain ⟨hv, hrest⟩ := List.forall_mem_cons.mp h
    cases rest with
    | nil => exact hv.balanced
    | cons w rest =>
      have hcomma : Cursor.Balanced [',', ' '] := .ordinary (List.all_eq_true.mp (by decide))
      exact hv.balanced.append (hcomma.append (ih hrest))

/-- What stands behind an item, up to the bracket that closes the list. -/
def behindItem : List Value → List Char
  | [] => [']']
  | v :: rest => ',' :: ' ' :: (itemsText (v :: rest) ++ [']'])

theorem itemsText_cons (v : Value) (rest : List Value) :
    itemsText (v :: rest) ++ [']'] = v.itemText ++ behindItem rest := by
  cases rest with
  | nil => rfl
  | cons w rest =>
    rw [itemsText, behindItem, List.append_assoc]
    rfl

theorem begins_itemsText (h : ∀ v ∈ vs, v.ReadsBack) (hvs : vs ≠ []) :
    BeginsWithout [']'] (itemsText vs ++ [']']) := by
  cases vs with
  | nil => exact absurd rfl hvs
  | cons v rest =>
    rw [itemsText_cons]
    exact (h v List.mem_cons_self).begins.append _

/-- The items of a list are read up to its closing bracket, behind those that were read before. -/
theorem succeeds_items {t : ValueType} {depth n : Nat} {read : List Value} (h : ∀ v ∈ vs, v.ReadsBack)
    (hdepth : ∀ v ∈ vs, v.itemText.length < depth) (hn : vs.length < n)
    (hfaces : c.skipSpace.Faces closers known (itemsText vs ++ [']'])) :
    Succeeds c (Literal.items t (Literal.nested depth .any) n read) fun us _ => us = read.reverse ++ vs := by
  induction vs generalizing c read n with
  | nil =>
    cases n with
    | zero => omega
    | succ n =>
      have hclosed : (c.skipSpace.eat ']').1 = true := (Cursor.Faces.eat hfaces).1
      unfold Literal.items
      refine Succeeds.move (Succeeds.step ?_)
      rw [hclosed, if_pos rfl]
      exact Succeeds.pure (List.append_nil _).symm
  | cons v rest ih =>
    cases n with
    | zero => omega
    | succ n =>
      obtain ⟨hv, hrest⟩ := List.forall_mem_cons.mp h
      obtain ⟨hvdepth, hdepth⟩ := List.forall_mem_cons.mp hdepth
      have hbegins := begins_itemsText h (List.cons_ne_nil v rest)
      have hother := hfaces.eat_other (hbegins.head?_ne (List.mem_singleton_self ']'))
      rw [itemsText_cons] at hfaces
      unfold Literal.items
      refine Succeeds.move (Succeeds.step ?_)
      rw [hother, if_neg Bool.false_ne_true]
      have hstop : StopsAt isLiteralChar (behindItem rest) := by
        cases rest <;> rintro x ⟨⟩ <;> decide
      refine (hv.read hfaces hstop hvdepth).bind fun u e hread => Succeeds.move ?_
      obtain ⟨hu, he⟩ := hread
      have hthere := he.skipNone (by cases rest <;> rintro x ⟨⟩ <;> decide)
      generalize e.skipSpace = e at hthere
      refine Succeeds.step ?_
      cases rest with
      | nil =>
        rw [hthere.eat_other (by decide), if_neg Bool.false_ne_true]
        refine Succeeds.step ?_
        rw [(Cursor.Faces.eat hthere).1, if_pos rfl]
        refine Succeeds.pure ?_
        rw [hu, List.reverse_cons]
      | cons w rest =>
        obtain ⟨heaten, hbehind⟩ := Cursor.Faces.eat hthere
        have hnext := hbehind.skipOne (begins_itemsText hrest (List.cons_ne_nil w rest)).stopsAt_isBlank
        rw [heaten, if_pos rfl]
        refine (ih hrest hdepth (by simpa using hn) hnext).mono fun us _ hus => ?_
        rw [hus, hu, List.reverse_cons, List.append_assoc]
        rfl

theorem length_itemText_le {v : Value} (hv : v ∈ vs) : v.itemText.length ≤ (itemsText vs ++ [']']).length := by
  induction vs with
  | nil => cases hv
  | cons w rest ih =>
    rw [itemsText_cons, List.length_append]
    rcases List.mem_cons.mp hv with rfl | hv
    · exact Nat.le_add_right _ _
    · cases rest with
      | nil => cases hv
      | cons u rest =>
        have hle := ih hv
        simp only [behindItem, List.length_cons]
        omega

theorem length_le_itemsText (h : ∀ v ∈ vs, v.ReadsBack) : vs.length ≤ (itemsText vs ++ [']']).length := by
  induction vs with
  | nil => exact Nat.zero_le _
  | cons v rest ih =>
    obtain ⟨hv, hrest⟩ := List.forall_mem_cons.mp h
    have hpos : 0 < v.itemText.length := List.length_pos_iff.mpr hv.begins.ne_nil
    rw [itemsText_cons, List.length_append, List.length_cons]
    cases rest with
    | nil => exact Nat.le_add_left 1 _
    | cons w rest =>
      have hle := ih hrest
      simp only [behindItem, List.length_cons] at hle ⊢
      omega

/-- A block that is cut off, in front of the child and of the cursor. -/
theorem faces_slice? {opening closing : Char} {block : List Char}
    (h : c.Faces closers known (opening :: (block ++ more))) (hopening : ¬isBlank opening)
    (hsplit : Cursor.splitBlock? opening closing 1 .plain (block ++ more) = some (block, more)) :
    ∃ child after, c.slice? opening closing = some (child, after) ∧ child.Faces [] known block ∧
      after.Faces closers known more := by
  have hnone : ∀ x ∈ ([] : List Char), c.isSpace x := fun _ hx => (List.not_mem_nil hx).elim
  have hslice := @Cursor.slice?_eq_map opening closing c [] (block ++ more) hnone
    (fun hspace => hopening (Cursor.blank_of_isSpace hspace)) h.rest
  rw [hsplit] at hslice
  refine ⟨_, _, hslice, ⟨rfl, rfl, rfl, h.known, h.completing⟩, ⟨rfl, ?_, h.closers, h.known, h.completing⟩⟩
  have hstop := h.stop
  rw [Text.size_cons, Text.size_append] at hstop
  simp only [Text.size_nil, hstop]
  omega

/-- If the items are read from a block that is cut off, the list is read, and the cursor comes behind the block. -/
theorem run_list_of_items {t : ValueType} {item : Reading Value} {child after : Cursor}
    (hslice : c.slice? '[' ']' = some (child, after))
    (hitems : Succeeds child (Literal.allItems t item []) fun us _ => us = vs) :
    (Literal.list t item).run.run c = (some (list vs), after) := by
  obtain ⟨us, hus, hread⟩ := hitems
  rw [Literal.run_list, hslice]
  dsimp only
  split
  · rename_i found last hrun
    rw [hrun] at hus
    obtain rfl := Option.some.inj hus
    rw [hread]
  · rename_i last hrun
    rw [hrun] at hus
    cases hus

theorem readsBack_list (h : ∀ v ∈ vs, v.ReadsBack) : (list vs).ReadsBack := by
  refine ⟨⟨'[', _, itemText_list vs, by decide⟩, fun c closers known more depth hfaces hmore hdepth => ?_⟩
  cases depth with
  | zero => omega
  | succ depth =>
    rw [itemText_list, List.cons_append] at hfaces
    rw [itemText_list, List.length_cons] at hdepth
    have hthere := hfaces.skipNone (by rintro x ⟨⟩; decide)
    -- the bracket behind the items is the one that closes the list
    have hblock : Cursor.splitBlock? '[' ']' 1 .plain (itemsText vs ++ [']'] ++ more)
        = some (itemsText vs ++ [']'], more) := by
      rw [List.append_assoc, balanced_itemsText h 1 _ Nat.one_pos]
      rfl
    obtain ⟨child, after, hslice, hchild, hafter⟩ := faces_slice? hthere (by decide) hblock
    have hbegin : StopsAt isBlank (itemsText vs ++ [']']) := by
      by_cases hvs : vs = []
      · subst hvs
        decide
      · exact (begins_itemsText h hvs).stopsAt_isBlank
    have hitems : Succeeds child (Literal.allItems (.list .any) (Literal.nested depth .any) []) fun us _ => us = vs :=
      Succeeds.look (succeeds_items h (fun v hv => (length_itemText_le hv).trans_lt (Nat.lt_of_succ_lt_succ hdepth))
        (by rw [hchild.rest]; exact Nat.lt_succ_of_le (length_le_itemsText h)) (hchild.skipNone hbegin))
    have hlist := run_list_of_items hslice hitems
    unfold Literal.nested
    refine Succeeds.move (Succeeds.look ?_)
    rw [hthere.peek]
    refine ⟨list vs, congrArg Prod.fst hlist, rfl, ?_⟩
    exact (congrArg (Cursor.Faces closers known more ∘ Prod.snd) hlist).mpr hafter

/-! ### All values -/

mutual

theorem readsBack : (v : Value) → v.isReadBack = true → v.ReadsBack
  | int n, _ => readsBack_int n
  | bool b, _ => readsBack_bool b
  | string _, h => readsBack_string h
  | list items, h => readsBack_list (allReadsBack items h)

theorem allReadsBack : (vs : List Value) → allReadBack vs = true → ∀ v ∈ vs, v.ReadsBack
  | [], _ => fun _ hv => (List.not_mem_nil hv).elim
  | v :: rest, h => by
    obtain ⟨hv, hrest⟩ := (Bool.and_eq_true _ _).mp h
    exact List.forall_mem_cons.mpr ⟨readsBack v hv, allReadsBack rest hrest⟩

end

end Value

/-- A list of values that are read back, to any depth, is the value that its text is read as. -/
theorem list_text_reads_back {items : List Value} (h : (Value.list items).isReadBack = true) :
    readValue (Value.list items).toText = .ok (.list items) := by
  have hfaces := Cursor.faces_ofSource (Value.list items).toText
  have htext : (Value.list items).toText.toList = (Value.list items).itemText ++ [] := (List.append_nil _).symm
  rw [htext] at hfaces
  obtain ⟨v, hv, rfl, hend⟩ : Succeeds _ (literal .any) _ :=
    Succeeds.look ((Value.readsBack _ h).read hfaces (by decide)
      (by rw [hfaces.rest, List.append_nil]; exact Nat.lt_succ_self _))
  have hatEnd := (hend.skipNone (by decide)).atEnd
  unfold readValue
  extract_lets whole
  split
  · rename_i last hrun
    rw [hrun] at hv
    cases hv
  · rename_i u last hrun
    rw [hrun] at hv hatEnd
    obtain rfl := Option.some.inj hv
    rw [hatEnd]
    rfl

/-- The items of a list with brackets, commas, quotes and backslashes in the texts. -/
def bracketTexts : List Value :=
  [.int (-5), .bool true, .string "]\"[", .list [], .list [.list [.string "a, \\b\n", .int 0]]]

theorem list_text_reads_back_bracketTexts :
    (Value.list bracketTexts).isReadBack = true ∧
      readValue "[-5, true, \"]\\\"[\", [], [[\"a, \\\\b\\n\", 0]]]" = .ok (.list bracketTexts) := by
  have hreadBack : (Value.list bracketTexts).isReadBack = true := by decide +kernel
  have htext : (Value.list bracketTexts).toText = "[-5, true, \"]\\\"[\", [], [[\"a, \\\\b\\n\", 0]]]" := by
    decide +kernel
  exact ⟨hreadBack, htext ▸ list_text_reads_back hreadBack⟩

/-! ### Types -/

open ValueType

/-- A type without a list of void in it is read back from its name.  The texts that are read as a type are the
spellings of it in any letter case, and such a type can be written and is read back from its name in turn.  Where the
name of a type is next, behind some space or none, and no further character of a name behind it, reading a type argument
passes just that and yields the type, whether requests are kept or not. -/
theorem type_names_are_read_back :
    (∀ t : ValueType, t.isWritable = true → ofName? t.name = some t) ∧
    (∀ text t, ofName? text = some t ↔ SpelledAs t (text.toList.map Char.toLower)) ∧
    (∀ text t, ofName? text = some t → t.isWritable = true ∧ ofName? t.name = some t) ∧
    ∀ (t : ValueType) (command : String) (c : Cursor) (space more : List Char), t.isWritable = true →
      (∀ x ∈ space, c.isSpace x = true) → c.rest = space ++ (t.name.toList ++ more) → StopsAt isTypeChar more →
        Succeeds c (typeArgument command) fun u e => u = t ∧ c.Passes (space ++ t.name.toList) e := by
  refine ⟨fun _ => ofName?_name, fun _ _ => ofName?_eq_some_iff, fun text t h => ?_,
    fun t command c space more h hspace hrest hmore => ?_⟩
  · have hwritable : t.isWritable = true := (ofName?_eq_some_iff.mp h).isWritable
    exact ⟨hwritable, ofName?_name hwritable⟩
  · exact (succeeds_typeArgument (ofName?_name h) command hspace hrest hmore).mono fun u e ⟨hu, he, _⟩ => ⟨hu, he⟩

theorem type_names_are_read_back_nestedList :
    ofName? "List<LIST<Str>>" = some (.list (.list .string)) ∧ (ValueType.list (.list .string)).isWritable = true ∧
      Succeeds (Cursor.ofSource " list<list<string>>;") (typeArgument "val") fun u e =>
        u = .list (.list .string) ∧ e.rest = [';'] := by
  obtain ⟨-, hspelled, hread, hargument⟩ := type_names_are_read_back
  have hname : ofName? "List<LIST<Str>>" = some (.list (.list .string)) :=
    (hspelled _ _).mpr (.list (.list .str (by decide)) (by decide))
  have hwritable := (hread _ _ hname).1
  refine ⟨hname, hwritable, ?_⟩
  refine (hargument _ "val" (Cursor.ofSource " list<list<string>>;") [' '] [';'] hwritable
    (List.forall_mem_singleton.mpr rfl) rfl (by decide)).mono ?_
  rintro u e ⟨hu, he⟩
  have hrest : " list<list<string>>".toList ++ [';'] = " list<list<string>>".toList ++ e.rest := he.rest
  exact ⟨hu, (List.append_cancel_left hrest).symm⟩

end KeyConsole.Console
