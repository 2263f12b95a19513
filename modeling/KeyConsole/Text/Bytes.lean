/-!
# Text.Bytes: texts measured in UTF-8 bytes

Positions in a source text count bytes of its UTF-8 form.  `size` measures a list of characters and
`splitAt?` cuts one at a byte position; a cut exists exactly at the character boundaries.
-/

namespace KeyConsole.Text

/-- Length of the UTF-8 form. -/
def size : List Char → Nat
  | [] => 0
  | c :: cs => c.utf8Size + size cs

@[simp] theorem size_nil : size [] = 0 := rfl

@[simp] theorem size_cons (c : Char) (cs : List Char) : size (c :: cs) = c.utf8Size + size cs := rfl

@[simp] theorem size_append (xs ys : List Char) : size (xs ++ ys) = size xs + size ys := by
  induction xs with
  | nil => simp
  | cons c xs ih => simp [ih, Nat.add_assoc]

theorem eq_nil_of_size {cs : List Char} (h : size cs = 0) : cs = [] := by
  cases cs with
  | nil => rfl
  | cons c cs =>
    have hc : 0 < c.utf8Size := Char.utf8Size_pos c
    rw [size_cons] at h
    omega

/-- Cut a text at a byte position; nothing if the position is inside a character or past the end. -/
def splitAt? (at? : Nat) : List Char → Option (List Char × List Char)
  | [] => if at? = 0 then some ([], []) else none
  | c :: cs =>
    if at? = 0 then some ([], c :: cs)
    else if at? < c.utf8Size then none
    else (splitAt? (at? - c.utf8Size) cs).map fun (before, after) => (c :: before, after)

/-- The two parts of a cut are the text, and the first has the asked size. -/
theorem splitAt?_eq_some {n : Nat} {cs before after : List Char}
    (h : splitAt? n cs = some (before, after)) : cs = before ++ after ∧ size before = n := by
  induction cs generalizing n before after with
  | nil =>
    simp only [splitAt?] at h
    split at h <;> simp_all
  | cons c cs ih =>
    simp only [splitAt?] at h
    split at h
    · simp_all
    · split at h
      · simp at h
      · obtain ⟨⟨b, a⟩, hba, heq⟩ := Option.map_eq_some_iff.1 h
        obtain ⟨rfl, rfl⟩ := Prod.mk.inj heq
        obtain ⟨rfl, hs⟩ := ih hba
        simp; omega

/-- There is a cut behind each beginning of a text. -/
theorem splitAt?_size (before after : List Char) :
    splitAt? (size before) (before ++ after) = some (before, after) := by
  induction before with
  | nil => cases after <;> rfl
  | cons c before ih =>
    have hpos : 0 < c.utf8Size := Char.utf8Size_pos c
    have hne : size (c :: before) ≠ 0 := by rw [size_cons]; omega
    have hle : ¬ size (c :: before) < c.utf8Size := by rw [size_cons]; omega
    have hrest : size (c :: before) - c.utf8Size = size before := by rw [size_cons]; omega
    rw [List.cons_append, splitAt?, if_neg hne, if_neg hle, hrest, ih]
    rfl

/-- Characters from one byte position to another, if both are character boundaries in order. -/
def slice? (start stop : Nat) (cs : List Char) : Option (List Char) := do
  let (_, rest) ← splitAt? start cs
  if stop < start then none
  else (splitAt? (stop - start) rest).map (·.1)

/-- Between the positions of a part of a text is this part. -/
theorem slice?_size (before text after : List Char) :
    slice? (size before) (size before + size text) (before ++ text ++ after) = some text := by
  have hle : ¬ size before + size text < size before := by omega
  have hsize : size before + size text - size before = size text := by omega
  unfold slice?
  rw [List.append_assoc, splitAt?_size]
  simp only [Option.bind_eq_bind, Option.bind_some]
  rw [if_neg hle, hsize, splitAt?_size]
  rfl

end KeyConsole.Text
