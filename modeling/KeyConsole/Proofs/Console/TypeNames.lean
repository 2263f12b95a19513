import KeyConsole.Console.Pipeline.Reading
import Mathlib.Tactic.SplitIfs

/-!
# Proofs.Console.TypeNames: types read back from their names

Every type has a name, but a list of void cannot be written: its name is none that is read.  Some types have a second
name, and letters may be capital: the texts that are read as types are just the spellings of the types that can be
written.
-/

namespace KeyConsole.Console.ValueType

/-- The type can be written: no list in it is one of void. -/
def isWritable : ValueType → Bool
  | list void => false
  | list t => t.isWritable
  | _ => true

/-- How a type may be spelled in small letters.  A list of void has no spelling. -/
inductive SpelledAs : ValueType → List Char → Prop where
  | void : SpelledAs void "void".toList
  | int : SpelledAs int "int".toList
  | i64 : SpelledAs int "i64".toList
  | float : SpelledAs float "float".toList
  | f64 : SpelledAs float "f64".toList
  | bool : SpelledAs bool "bool".toList
  | string : SpelledAs string "string".toList
  | str : SpelledAs string "str".toList
  | any : SpelledAs any "any".toList
  | list {t cs} (h : SpelledAs t cs) (hvoid : t ≠ void) : SpelledAs (list t) ("list<".toList ++ (cs ++ ['>']))

variable {t : ValueType} {cs : List Char}

theorem isWritable_list : (list t).isWritable = true ↔ t ≠ void ∧ t.isWritable = true := by
  cases t <;> simp [isWritable]

theorem toList_name_list (t : ValueType) :
    (list t).name.toList = 'l' :: 'i' :: 's' :: 't' :: '<' :: (t.name.toList ++ ['>']) := by
  simp [name, String.toList_append]

/-- A name consists of small letters and the marks of lists. -/
theorem toLower_of_mem_name {x : Char} (h : x ∈ t.name.toList) : x.toLower = x := by
  induction t with
  | list t ih =>
    have hfront : (list t).name.toList = "list<".toList ++ (t.name.toList ++ ['>']) := toList_name_list t
    rw [hfront] at h
    rcases List.mem_append.mp h with h | h
    · exact of_decide_eq_true (List.all_eq_true.mp (by decide : "list<".toList.all fun y => y.toLower = y) x h)
    · rcases List.mem_append.mp h with h | h
      · exact ih h
      · obtain rfl := List.mem_singleton.mp h
        decide
  | _ => exact of_decide_eq_true (List.all_eq_true.mp (by decide : List.all _ fun y => y.toLower = y) x h)

/-! ### Spellings -/

theorem betweenListMarks?_eq_some_iff {inner : List Char} :
    betweenListMarks? cs = some inner ↔ cs = "list<".toList ++ (inner ++ ['>']) := by
  constructor
  · intro h
    unfold betweenListMarks? at h
    split at h
    · rename_i rest
      split at h
      · rename_i hlast
        obtain ⟨front, rfl⟩ := List.getLast?_eq_some_iff.mp hlast
        rw [List.dropLast_concat] at h
        obtain rfl := Option.some.inj h
        rfl
      · cases h
    · cases h
  · rintro rfl
    simp [betweenListMarks?]

/-- A type is found under the spellings of it, if the bound on the nesting is above the length of the text. -/
theorem ofSmallLetters?_of_spelledAs (h : SpelledAs t cs) {n : Nat} (hn : cs.length < n) :
    ofSmallLetters? n cs = some t := by
  induction h generalizing n with
  | @list t cs h hvoid ih =>
    cases n with
    | zero => omega
    | succ n =>
      have hlength : cs.length < n := by
        simp only [List.length_append, List.length_singleton] at hn
        omega
      have hinner : (betweenListMarks? ("list<".toList ++ (cs ++ ['>']))).bind (ofSmallLetters? n) = some t := by
        rw [betweenListMarks?_eq_some_iff.mpr rfl]
        exact ih hlength
      rw [ofSmallLetters?, hinner]
      cases t with
      | void => exact absurd rfl hvoid
      | _ => simp
  | _ =>
    cases n with
    | zero => omega
    | succ n => rfl

theorem spelledAs_of_ofSmallLetters? {n : Nat} (h : ofSmallLetters? n cs = some t) : SpelledAs t cs := by
  induction n generalizing t cs with
  | zero => cases h
  | succ n ih =>
    unfold ofSmallLetters? at h
    simp only [Bool.or_eq_true, decide_eq_true_eq] at h
    split_ifs at h with hvoid hint hfloat hbool hstring hany
    · obtain rfl := Option.some.inj h
      exact hvoid ▸ .void
    · obtain rfl := Option.some.inj h
      rcases hint with rfl | rfl
      · exact .int
      · exact .i64
    · obtain rfl := Option.some.inj h
      rcases hfloat with rfl | rfl
      · exact .float
      · exact .f64
    · obtain rfl := Option.some.inj h
      exact hbool ▸ .bool
    · obtain rfl := Option.some.inj h
      rcases hstring with rfl | rfl
      · exact .string
      · exact .str
    · obtain rfl := Option.some.inj h
      exact hany ▸ .any
    · split at h
      · cases h
      · cases h
      · rename_i u hvoid hinner
        obtain rfl := Option.some.inj h
        obtain ⟨inner, hmarks, hread⟩ := Option.bind_eq_some_iff.mp hinner
        rw [betweenListMarks?_eq_some_iff.mp hmarks]
        refine .list (ih hread) ?_
        rintro rfl
        exact hvoid rfl

/-- A text names a type just if it is a spelling of it, in whatever letter case. -/
theorem ofName?_eq_some_iff {text : String} :
    ofName? text = some t ↔ SpelledAs t (text.toList.map Char.toLower) :=
  ⟨spelledAs_of_ofSmallLetters?, fun h => ofSmallLetters?_of_spelledAs h (Nat.lt_succ_self _)⟩

/-- What can be spelled can be written. -/
theorem SpelledAs.isWritable (h : SpelledAs t cs) : t.isWritable = true := by
  induction h with
  | list _ hvoid ih => exact isWritable_list.mpr ⟨hvoid, ih⟩
  | _ => rfl

theorem spelledAs_name (h : t.isWritable = true) : SpelledAs t t.name.toList := by
  induction t with
  | list t ih =>
    obtain ⟨hvoid, hwritable⟩ := isWritable_list.mp h
    rw [toList_name_list]
    exact .list (ih hwritable) hvoid
  | void => exact .void
  | int => exact .int
  | float => exact .float
  | bool => exact .bool
  | string => exact .string
  | any => exact .any

/-- A type is read back from its name, if it can be written. -/
theorem ofName?_name (h : t.isWritable = true) : ofName? t.name = some t := by
  have hsmall : t.name.toList.map Char.toLower = t.name.toList := by
    rw [List.map_congr_left fun x hx => toLower_of_mem_name hx, List.map_id']
  rw [ofName?_eq_some_iff, hsmall]
  exact spelledAs_name h

/-! ### The characters of spellings -/

/-- A character that may stand in the spelling of a type, in whatever letter case. -/
def isSpellingChar (x : Char) : Bool := x.isAlphanum || x = '<' || x = '>'

theorem isSpellingChar_of_toLower {x : Char} (h : isSpellingChar x.toLower = true) : isSpellingChar x = true := by
  by_cases hcapital : x.val ≥ 'A'.val ∧ x.val ≤ 'Z'.val
  · have hupper : x.isUpper = true := decide_eq_true hcapital
    have halpha : x.isAlpha = true := (Bool.or_eq_true _ _).mpr (.inl hupper)
    simp [isSpellingChar, Char.isAlphanum, halpha]
  · have hsmall : x.toLower = x := dif_neg hcapital
    rwa [hsmall] at h

theorem isTypeChar_of_isSpellingChar {x : Char} (h : isSpellingChar x = true) :
    isTypeChar x = true ∧ Text.isBlank x = false := by
  simp only [isSpellingChar, Bool.or_eq_true, decide_eq_true_eq] at h
  rcases h with (halphanum | rfl) | rfl
  · exact ⟨by simp [isTypeChar, Text.isAlphanumeric_of_isAlphanum halphanum], Text.isBlank_of_isAlphanum halphanum⟩
  · decide
  · decide

theorem SpelledAs.isSpellingChar (h : SpelledAs t cs) : cs ≠ [] ∧ ∀ x ∈ cs, isSpellingChar x = true := by
  induction h with
  | list h hvoid ih =>
    refine ⟨List.cons_ne_nil _ _, fun x hx => ?_⟩
    rcases List.mem_append.mp hx with hx | hx
    · exact List.all_eq_true.mp (by decide) x hx
    · rcases List.mem_append.mp hx with hx | hx
      · exact ih.2 x hx
      · obtain rfl := List.mem_singleton.mp hx
        decide
  | _ => exact ⟨by decide, List.all_eq_true.mp (by decide)⟩

/-- A text that names a type is a word of the characters that names of types have. -/
theorem word_of_ofName? {text : String} (h : ofName? text = some t) :
    text.toList ≠ [] ∧ ∀ x ∈ text.toList, isTypeChar x = true ∧ Text.isBlank x = false := by
  obtain ⟨hne, hchars⟩ := (ofName?_eq_some_iff.mp h).isSpellingChar
  refine ⟨fun hnil => hne (by rw [hnil]; rfl), fun x hx => isTypeChar_of_isSpellingChar ?_⟩
  exact isSpellingChar_of_toLower (hchars _ (List.mem_map_of_mem hx))

end KeyConsole.Console.ValueType
