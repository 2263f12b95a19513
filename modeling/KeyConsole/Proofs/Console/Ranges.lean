import KeyConsole.Proofs.Console.BalancedBlocks

/-!
# Proofs.Console.Ranges: what is left of a range

A cursor in a source stands at a character of it, and its range is a part of the source from there on.  While
something is read the cursor stays in its source and what is left becomes less: behind some passed text, and in a
block that has been cut off, there is only a part of what was left before.
-/

namespace KeyConsole.Console.Cursor

open Text (size)

variable {c e f child after : Cursor} {text : List Char} {opening closing : Char}

/-! ### Cursors in a source -/

/-- The cursor stands in its source, and what is left of its range follows there. -/
def InSource (c : Cursor) : Prop :=
  ∃ before behind, c.source.toList = before ++ (c.rest ++ behind) ∧ c.offset = size before ∧
    c.stop = size before + size c.rest

theorem inSource_cursor (d : Directory) (source : String) (known : Ordered.NameMap ValueType) :
    (d.cursor source known).InSource :=
  ⟨[], [], by rw [List.nil_append, List.append_nil]; rfl, rfl, (Nat.zero_add _).symm⟩

theorem Passes.inSource (h : c.Passes text e) (hc : c.InSource) : e.InSource := by
  obtain ⟨before, behind, hsource, hoffset, hstop⟩ := hc
  refine ⟨before ++ text, behind, ?_, ?_, ?_⟩
  · rw [h.source, hsource, h.rest]
    simp only [List.append_assoc]
  · rw [h.offset, hoffset, Text.size_append]
  · rw [h.stop, hstop, h.rest, Text.size_append, Text.size_append, Nat.add_assoc]

/-- A block that is cut off ranges over a part of the source. -/
theorem inSource_of_slice? (h : c.slice? opening closing = some (child, after)) (hc : c.InSource) : child.InSource := by
  obtain ⟨space, block, -, hrest, -, rfl, -⟩ := exists_of_slice? h
  obtain ⟨before, behind, hsource, hoffset, -⟩ := hc
  have hstart : c.offset + size space + opening.utf8Size = size (before ++ space ++ [opening]) := by
    rw [hoffset, Text.size_append, Text.size_append, Text.size_cons, Text.size_nil, Nat.add_zero]
  refine ⟨before ++ space ++ [opening], after.rest ++ behind, ?_, hstart, ?_⟩
  · have hall : c.source.toList = before ++ (space ++ opening :: (block ++ after.rest) ++ behind) := by
      rw [hsource, hrest]
    rw [hall]
    simp only [List.append_assoc, List.cons_append, List.nil_append]
  · rw [← hstart]

/-- The place of a cursor in a source is between two characters. -/
theorem InSource.isSome_splitAt? (hc : c.InSource) : (Text.splitAt? c.offset c.source.toList).isSome := by
  obtain ⟨before, behind, hsource, hoffset, -⟩ := hc
  rw [hsource, hoffset, Text.splitAt?_size]
  rfl

/-! ### What is left -/

/-- The bytes from the cursor to the end of its range. -/
def left (c : Cursor) : Nat := size c.rest

theorem left_eq_of_inSource (hc : c.InSource) : c.left = c.stop - c.offset := by
  obtain ⟨before, behind, -, hoffset, hstop⟩ := hc
  unfold left
  omega

theorem length_le_left (c : Cursor) : c.rest.length ≤ c.left := by
  unfold left
  induction c.rest with
  | nil => exact Nat.le_refl 0
  | cons x cs ih =>
    have hpos : 0 < x.utf8Size := Char.utf8Size_pos x
    rw [List.length_cons, Text.size_cons]
    omega

/-- At `e` there is a part left of what is left at `c`, and not all of it. -/
structure Inside (e c : Cursor) : Prop where
  part : e.rest <:+: c.rest
  shorter : e.rest.length < c.rest.length

theorem Inside.left_lt (h : e.Inside c) : e.left < c.left := by
  obtain ⟨⟨before, behind, hrest⟩, hshorter⟩ := h
  have hlength : e.rest.length < before.length + e.rest.length + behind.length := by
    rw [← hrest, List.length_append, List.length_append] at hshorter
    exact hshorter
  have hbefore := length_le_left { c with rest := before }
  have hbehind := length_le_left { c with rest := behind }
  unfold left at hbefore hbehind ⊢
  rw [← hrest, Text.size_append, Text.size_append]
  dsimp only at hbefore hbehind
  omega

theorem Inside.trans (h : f.Inside e) (h' : e.Inside c) : f.Inside c :=
  ⟨h.part.trans h'.part, Nat.lt_trans h.shorter h'.shorter⟩

/-- What is left behind a text that is not empty is inside. -/
theorem Passes.inside (h : c.Passes text e) (hne : text ≠ []) : e.Inside c := by
  refine ⟨⟨text, [], by rw [h.rest, List.append_nil]⟩, ?_⟩
  have hpos : 0 < text.length := List.length_pos_iff.mpr hne
  rw [h.rest, List.length_append]
  omega

/-- Moving on stays inside. -/
theorem Inside.passes (h : e.Inside c) (hpassed : e.Passes text f) : f.Inside c := by
  have hpart : f.rest <:+: e.rest := ⟨text, [], by rw [hpassed.rest, List.append_nil]⟩
  exact ⟨hpart.trans h.part, Nat.lt_of_le_of_lt hpart.length_le h.shorter⟩

/-- What is inside behind a passed text is inside before it. -/
theorem Inside.of_passes (h : f.Inside e) (hpassed : c.Passes text e) : f.Inside c := by
  have hpart : e.rest <:+: c.rest := ⟨text, [], by rw [hpassed.rest, List.append_nil]⟩
  exact ⟨h.part.trans hpart, Nat.lt_of_lt_of_le h.shorter hpart.length_le⟩

/-- A block that is cut off is inside. -/
theorem inside_of_slice? (h : c.slice? opening closing = some (child, after)) : child.Inside c := by
  obtain ⟨space, block, -, hrest, -, rfl, -⟩ := exists_of_slice? h
  refine ⟨⟨space ++ [opening], after.rest, ?_⟩, ?_⟩
  · rw [hrest]
    simp only [List.append_assoc, List.cons_append, List.nil_append]
  · rw [hrest]
    simp only [List.length_append, List.length_cons]
    omega

end KeyConsole.Console.Cursor
