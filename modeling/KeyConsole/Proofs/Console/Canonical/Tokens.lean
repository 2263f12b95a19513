import KeyConsole.Proofs.Console.Canonical.Script
import KeyConsole.Proofs.Console.Passage
import KeyConsole.Proofs.Decimal.IntText
import Mathlib.Data.List.DropRight

/-!
# Proofs.Console.Canonical.Tokens: reading one word after the other

`x.Succeeds c Q` says that the reading `x` yields something from `c` on, and that `Q` holds of it and of the cursor
behind it.  `c.Faces closers known text` says what a cursor has in front of it: here always some words, each behind one
space.
-/

namespace KeyConsole.Console

open Ordered (NameMap)
open Text (size isBlank)

/-! ### Readings that succeed -/

namespace Reading

variable {α β : Type} {x : Reading α} {k : α → Reading β} {c : Cursor} {P : α → Cursor → Prop}
  {Q : β → Cursor → Prop}

/-- From the cursor on the reading yields something, for which `Q` holds with the cursor behind it. -/
def Succeeds (c : Cursor) (x : Reading α) (Q : α → Cursor → Prop) : Prop :=
  ∃ a, (x.run.run c).1 = some a ∧ Q a (x.run.run c).2

namespace Succeeds

theorem pure {a : α} (h : P a c) : Succeeds c (Pure.pure a) P := ⟨a, rfl, h⟩

theorem bind (hx : Succeeds c x P) (hk : ∀ a e, P a e → Succeeds e (k a) Q) : Succeeds c (x >>= k) Q := by
  obtain ⟨a, ha, hP⟩ := hx
  obtain ⟨b, hb, hQ⟩ := hk a _ hP
  refine ⟨b, ?_, ?_⟩
  · rw [run_bind_some ha]
    exact hb
  · rw [run_bind_some ha]
    exact hQ

theorem mono {P' : α → Cursor → Prop} (hx : Succeeds c x P) (h : ∀ a e, P a e → P' a e) : Succeeds c x P' := by
  obtain ⟨a, ha, hP⟩ := hx
  exact ⟨a, ha, h a _ hP⟩

theorem map {f : α → β} (hx : Succeeds c x fun a e => Q (f a) e) : Succeeds c (f <$> x) Q :=
  hx.bind fun _ _ h => pure h

theorem look {f : Cursor → α} (hk : Succeeds c (k (f c)) Q) : Succeeds c (Reading.look f >>= k) Q := hk

theorem get {k : Cursor → Reading β} (hk : Succeeds c (k c) Q) : Succeeds c (MonadState.get >>= k) Q := hk

theorem set {e : Cursor} {k : PUnit → Reading β} (hk : Succeeds e (k ⟨⟩) Q) :
    Succeeds c (MonadStateOf.set e >>= k) Q := hk

theorem move {f : Cursor → Cursor} {k : Unit → Reading β} (hk : Succeeds (f c) (k ()) Q) :
    Succeeds c (Reading.move f >>= k) Q := hk

theorem spanFrom {start : Nat} {k : Span → Reading β} (hk : ∀ span, Succeeds c (k span) Q) :
    Succeeds c (Reading.spanFrom start >>= k) Q := hk _

theorem step {f : Cursor → α × Cursor} (hk : Succeeds (f c).2 (k (f c).1) Q) :
    Succeeds c (Reading.step f >>= k) Q := hk

end Succeeds

end Reading

/-! ### Words in front of a cursor -/

/-- Words with one space before each. -/
def spaced (words : List String) : List Char := words.flatMap fun w => ' ' :: w.toList

@[simp] theorem spaced_nil : spaced [] = [] := rfl

@[simp] theorem spaced_cons (w : String) (words : List String) :
    spaced (w :: words) = ' ' :: (w.toList ++ spaced words) := rfl

@[simp] theorem spaced_append (first second : List String) :
    spaced (first ++ second) = spaced first ++ spaced second := List.flatMap_append

/-- Words with one space between any two of them. -/
def joined : List String → List Char
  | [] => []
  | w :: words => w.toList ++ spaced words

theorem length_spaced_le {first : List String} (h : first ≠ []) (words : List String) :
    (spaced words).length ≤ (joined (first ++ words)).length := by
  cases first with
  | nil => exact absurd rfl h
  | cons w first =>
    rw [List.cons_append, joined, spaced_append, List.length_append, List.length_append]
    omega

theorem toList_intercalate_space (words : List String) : (" ".intercalate words).toList = joined words := by
  rw [String.toList_intercalate]
  cases words with
  | nil => rfl
  | cons w words =>
    induction words generalizing w with
    | nil => simp [List.intercalate, joined]
    | cons v words ih =>
      have hmore := ih v
      simp only [List.map_cons, joined, spaced_cons] at hmore ⊢
      rw [← hmore]
      simp [List.intercalate]

/-- The text begins with no character that passes the test. -/
def StopsAt (test : Char → Bool) (text : List Char) : Prop := ∀ x ∈ text.head?, test x = false

instance (test : Char → Bool) (text : List Char) : Decidable (StopsAt test text) :=
  match text with
  | [] => isTrue fun _ h => nomatch h
  | x :: _ => decidable_of_iff (test x = false) (by simp [StopsAt])

theorem stopsAt_spaced {test : Char → Bool} (h : test ' ' = false) (words : List String) :
    StopsAt test (spaced words) := by
  intro x hx
  cases words with
  | nil => cases hx
  | cons w words =>
    cases hx
    exact h

theorem StopsAt.spaced_append {test : Char → Bool} {more : List Char} (hmore : StopsAt test more) (h : test ' ' = false)
    (words : List String) : StopsAt test (spaced words ++ more) := by
  cases words with
  | nil => exact hmore
  | cons w words =>
    rintro x ⟨⟩
    exact h

/-- A text that begins with a word without blanks. -/
theorem stopsAt_isBlank {word more : List Char} (hne : word ≠ []) (hword : ∀ x ∈ word, isBlank x = false) :
    StopsAt isBlank (word ++ more) := by
  intro x hx
  cases word with
  | nil => exact absurd rfl hne
  | cons y word =>
    cases hx
    exact hword _ List.mem_cons_self

namespace Cursor

variable {c e : Cursor} {closers : List Char} {known : NameMap ValueType} {text more front : List Char}

/-- Letters in a row, up to one that fails the test. -/
theorem upcoming_eq {test : Char → Bool} {letters : List Char} (hrest : c.rest = letters ++ more)
    (hletters : ∀ x ∈ letters, test x = true) (hmore : StopsAt test more) : c.upcoming test = letters := by
  have hnone : more.takeWhile test = [] := by
    cases more with
    | nil => rfl
    | cons x more => rw [List.takeWhile_cons, if_neg (by simp [hmore x rfl])]
  unfold upcoming
  rw [hrest, List.takeWhile_append_of_pos hletters, hnone, List.append_nil]

theorem skip_skip (test : Char → Bool) (c : Cursor) : (c.skip test).skip test = c.skip test := by
  have hsame : (c.skip test).rest.dropWhile test = (c.skip test).rest := List.dropWhile_idempotent test c.rest
  have hnone : (c.skip test).upcoming test = [] := by
    have hall : (c.skip test).upcoming test ++ (c.skip test).rest.dropWhile test = (c.skip test).rest :=
      List.takeWhile_append_dropWhile
    rw [hsame] at hall
    exact List.append_left_eq_self.mp hall
  rw [skip, hsame, hnone]
  rfl

/-- A word may as well be looked for behind the space in front of it. -/
theorem word_skipSpace (test : Char → Bool) (c : Cursor) : c.skipSpace.word test = c.word test := by
  have hskip : c.skipSpace.skipSpace = c.skipSpace := skip_skip c.isSpace c
  unfold word
  rw [hskip]

/-- A whole word, behind some space or none. -/
theorem word_ahead {test : Char → Bool} {space letters : List Char} (hspace : ∀ x ∈ space, c.isSpace x = true)
    (hrest : c.rest = space ++ (letters ++ more)) (hne : letters ≠ []) (hbegin : StopsAt isBlank (letters ++ more))
    (hletters : ∀ x ∈ letters, test x = true) (hmore : StopsAt test more) :
    (c.word test).1 = some (String.ofList letters) ∧ c.Passes (space ++ letters) (c.word test).2 := by
  have hstop : StopsAt c.isSpace (letters ++ more) := by
    intro x hx
    unfold isSpace
    rw [hbegin x hx]
    rfl
  have hskipped := (advances_skip c.isSpace c).passes
  rw [upcoming_eq hrest hspace hstop] at hskipped
  have hthere : c.skipSpace.rest = letters ++ more := List.append_cancel_left (hskipped.rest.symm.trans hrest)
  have hupcoming := upcoming_eq hthere hletters hmore
  have hword := (advances_skip test c.skipSpace).passes
  rw [hupcoming] at hword
  refine ⟨?_, hskipped.trans hword⟩
  unfold word
  dsimp only
  rw [hupcoming, if_neg (by simpa using hne)]

/-- The cursor has the text in front of it, and nothing else is left of its range. -/
structure Faces (closers : List Char) (known : NameMap ValueType) (text : List Char) (c : Cursor) : Prop where
  rest : c.rest = text
  stop : c.stop = c.offset + size text
  closers : c.closers = closers
  known : c.known = known
  completing : c.completing = false

/-- The start of a source faces all of it. -/
theorem faces_ofSource (source : String) : (ofSource source).Faces [] .empty source.toList :=
  ⟨rfl, (Nat.zero_add _).symm, rfl, rfl, rfl⟩

namespace Faces

/-- Behind a part of the text the cursor faces the rest. -/
theorem passed (h : c.Faces closers known text) (hpassed : c.Passes front e) (htext : text = front ++ more)
    (hknown : e.known = c.known) (hcompleting : e.completing = c.completing) : e.Faces closers known more := by
  have hrest : e.rest = more := by
    have hall := hpassed.rest
    rw [h.rest, htext] at hall
    exact (List.append_cancel_left hall).symm
  refine ⟨hrest, ?_, hpassed.closers.trans h.closers, hknown.trans h.known, hcompleting.trans h.completing⟩
  rw [hpassed.stop, h.stop, hpassed.offset, htext, Text.size_append, Nat.add_assoc]

/-- Nothing is offered where requests are not kept. -/
theorem offer (h : c.Faces closers known text) (request : Request) : c.offer request = c := by
  unfold Cursor.offer
  rw [if_neg (by rw [h.completing]; decide)]

/-- Where something is offered at the end of a text, the cursor stays. -/
theorem offering {β : Type} {Q : β → Cursor → Prop} {request : Request} {p : Prop} [Decidable p] {k : Unit → Reading β}
    (h : c.Faces closers known text) (hk : Reading.Succeeds c (k ()) Q) :
    Reading.Succeeds c (if p then Reading.move (·.offer request) >>= k else k ()) Q := by
  split
  · refine Reading.Succeeds.move ?_
    rw [h.offer]
    exact hk
  · exact hk

theorem peek (h : c.Faces closers known text) : c.peek = text.head? := by
  unfold Cursor.peek
  rw [h.rest]

theorem atEnd (h : c.Faces closers known text) : c.atEnd = text.isEmpty := by
  unfold Cursor.atEnd
  rw [h.stop]
  cases text with
  | nil => simp
  | cons x text =>
    have hx : 0 < x.utf8Size := Char.utf8Size_pos x
    have hlate : ¬ c.offset + size (x :: text) ≤ c.offset := by
      rw [Text.size_cons]
      omega
    exact decide_eq_false hlate

/-- Letters in a row, and what is behind them. -/
theorem skip {test : Char → Bool} {letters : List Char} (h : c.Faces closers known (letters ++ more))
    (hletters : ∀ x ∈ letters, test x = true) (hmore : StopsAt test more) :
    c.upcoming test = letters ∧ (c.skip test).Faces closers known more := by
  have hupcoming := upcoming_eq h.rest hletters hmore
  refine ⟨hupcoming, h.passed (advances_skip test c).passes ?_ rfl rfl⟩
  rw [hupcoming]

/-- Over at most one space to a character that is none. -/
theorem skipSpace {gap : List Char} (h : c.Faces closers known (gap ++ text)) (hgap : ∀ x ∈ gap, x = ' ')
    (htext : StopsAt isBlank text) : c.skipSpace.Faces closers known text := by
  refine (h.skip (fun x hx => ?_) fun x hx => ?_).2
  · rw [hgap x hx]
    unfold isSpace
    cases c.newlineEnds <;> rfl
  · unfold isSpace
    rw [htext x hx]
    rfl

theorem next {x : Char} (h : c.Faces closers known (x :: more)) : c.next.2.Faces closers known more := by
  have hnext := advances_next_of_peek h.peek
  exact h.passed hnext.passes rfl hnext.known hnext.completing

theorem eat {x : Char} (h : c.Faces closers known (x :: more)) :
    (c.eat x).1 = true ∧ (c.eat x).2.Faces closers known more := by
  have hpeek : c.peek = some x := h.peek
  unfold Cursor.eat
  rw [if_pos hpeek]
  exact ⟨rfl, h.next⟩

theorem eat_other {x : Char} (h : c.Faces closers known text) (hx : text.head? ≠ some x) : c.eat x = (false, c) := by
  unfold Cursor.eat
  rw [h.peek, if_neg hx]

/-- Where there is no space the cursor stays. -/
theorem skipNone (h : c.Faces closers known text) (htext : StopsAt isBlank text) :
    c.skipSpace.Faces closers known text := by
  have hgap : c.Faces closers known ([] ++ text) := h
  exact hgap.skipSpace (fun x hx => (List.not_mem_nil hx).elim) htext

/-- Over the space in front of a word. -/
theorem skipOne (h : c.Faces closers known (' ' :: text)) (htext : StopsAt isBlank text) :
    c.skipSpace.Faces closers known text := by
  have hgap : c.Faces closers known ([' '] ++ text) := h
  exact hgap.skipSpace (fun x hx => List.mem_singleton.mp hx) htext

/-- A whole word, behind a space or not. -/
theorem word {test : Char → Bool} {letters : List Char} (h : c.skipSpace.Faces closers known (letters ++ more))
    (hne : letters ≠ []) (hletters : ∀ x ∈ letters, test x = true) (hmore : StopsAt test more) :
    (c.word test).1 = some (String.ofList letters) ∧ (c.word test).2.Faces closers known more := by
  obtain ⟨hupcoming, hbehind⟩ := h.skip hletters hmore
  refine ⟨?_, hbehind⟩
  unfold Cursor.word
  dsimp only
  rw [hupcoming, if_neg (by simpa using hne)]

end Faces

end Cursor

/-! ### Literals -/

theorem isBlank_of_isLiteralChar {x : Char} (h : isLiteralChar x = true) : isBlank x = false := by
  unfold isLiteralChar at h
  exact (Bool.not_eq_true' _).mp ((Bool.and_eq_true _ _).mp h).1

/-- A character that passes a test which the marks fail is none of them. -/
theorem not_mem_of_test {test : Char → Bool} {x : Char} {marks : List Char} (h : test x = true)
    (hmarks : marks.all (!test ·) = true) : x ∉ marks := by
  intro hx
  have hnot := List.all_eq_true.mp hmarks x hx
  rw [h] at hnot
  cases hnot

theorem isLiteralChar_of_isDigit {x : Char} (h : x.isDigit) : isLiteralChar x = true := by
  have hblank : isBlank x = false := Text.isBlank_of_isAlphanum (by simp [Char.isAlphanum, h])
  have hmark : x ∉ [';', '|', '{', '}', '[', ']', ',', '"'] := not_mem_of_test h (by decide)
  simp only [List.mem_cons, List.not_mem_nil, or_false, not_or] at hmark
  unfold isLiteralChar
  rw [hblank]
  simp [hmark]

theorem isLiteralChar_of_mem_intText {n : Int} {x : Char} (h : x ∈ (Decimal.intText n).toList) :
    isLiteralChar x = true := by
  rcases Decimal.mem_intText h with hdigit | rfl
  · exact isLiteralChar_of_isDigit hdigit
  · decide

/-- Characters that are each read back, up to the closing quote. -/
theorem unquote?_flatMap {escape : Char → List Char} {s : List Char}
    (h : ∀ x ∈ s, ∀ more, Literal.unquote? (escape x ++ more) =
      (Literal.unquote? more).map fun read => (x :: read.1, read.2)) (more : List Char) :
    Literal.unquote? (s.flatMap escape ++ '"' :: more) = some (s, more) := by
  induction s with
  | nil => rfl
  | cons x s ih =>
    obtain ⟨hx, hs⟩ := List.forall_mem_cons.mp h
    rw [List.flatMap_cons, List.append_assoc, hx, ih hs]
    rfl

theorem unquote?_plain {x : Char} (hquote : x ≠ '"') (hslash : x ≠ '\\') (more : List Char) :
    Literal.unquote? ([x] ++ more) = (Literal.unquote? more).map fun read => (x :: read.1, read.2) := by
  rw [List.singleton_append, Literal.unquote?]
  all_goals simp [hquote, hslash]

theorem unquote?_escapedChar (x : Char) (more : List Char) :
    Literal.unquote? (escapedChar x ++ more) = (Literal.unquote? more).map fun read => (x :: read.1, read.2) := by
  unfold escapedChar
  split
  · rename_i hx
    have hsame : Literal.unescape x = x := by
      rcases (Bool.or_eq_true _ _).mp hx with hx | hx
      · rw [of_decide_eq_true hx]
        rfl
      · rw [of_decide_eq_true hx]
        rfl
    have hread : Literal.unquote? (['\\', x] ++ more)
        = (Literal.unquote? more).map fun read => (Literal.unescape x :: read.1, read.2) := rfl
    rw [hread, hsame]
  · rename_i hx
    exact unquote?_plain (fun h => hx (by simp [h])) (fun h => hx (by simp [h])) more

open Reading

variable {c : Cursor} {closers : List Char} {known : NameMap ValueType} {more : List Char}

namespace Literal

/-- A bare word that stands for a value. -/
theorem succeeds_scalar {t : ValueType} {value? : String → Option Value} {w : String} {v : Value}
    (h : c.Faces closers known (w.toList ++ more)) (hne : w.toList ≠ [])
    (hw : ∀ x ∈ w.toList, isLiteralChar x = true) (hmore : StopsAt isLiteralChar more)
    (hv : value? w = some v) :
    Succeeds c (scalar t value?) fun u e => u = v ∧ e.Faces closers known more := by
  have hbegin := h.skipNone (stopsAt_isBlank hne fun x hx => isBlank_of_isLiteralChar (hw x hx))
  obtain ⟨hword, hbehind⟩ := hbegin.word hne hw hmore
  unfold scalar
  refine Succeeds.look (Succeeds.step ?_)
  rw [hword, Option.getD_some, String.ofList_toList]
  dsimp only
  rw [hv]
  exact Succeeds.pure ⟨rfl, hbehind⟩

/-- A text in double quotes. -/
theorem succeeds_quoted {s : String} {written : List Char}
    (hwritten : ∀ more, unquote? (written ++ '"' :: more) = some (s.toList, more))
    (h : c.Faces closers known ('"' :: (written ++ '"' :: more))) :
    Succeeds c text fun u e => u = .string s ∧ e.Faces closers known more := by
  obtain ⟨heaten, hinside⟩ := h.eat
  unfold text
  refine Succeeds.look (Succeeds.step ?_)
  rw [heaten, if_pos rfl]
  refine Succeeds.get ?_
  generalize (c.eat '"').2 = e at hinside
  rw [hinside.rest, hwritten]
  refine Succeeds.set (Succeeds.pure ⟨by rw [String.ofList_toList], ?_⟩)
  have hfront : written ++ '"' :: more = (written ++ ['"']) ++ more := by
    rw [List.append_assoc]
    rfl
  have hsize : size (written ++ '"' :: more) - size more = size (written ++ ['"']) := by
    rw [hfront, Text.size_append, Nat.add_sub_cancel]
  refine hinside.passed ⟨?_, ?_, rfl, rfl, rfl⟩ hfront rfl rfl
  · rw [hinside.rest, hfront]
  · exact congrArg (e.offset + ·) hsize

theorem succeeds_text {s : String} (h : c.Faces closers known ((quotedText s).toList ++ more)) :
    Succeeds c text fun u e => u = .string s ∧ e.Faces closers known more := by
  have htext : (quotedText s).toList ++ more = '"' :: (s.toList.flatMap escapedChar ++ '"' :: more) := by
    rw [quotedText, String.toList_ofList, List.cons_append, List.append_assoc]
    rfl
  rw [htext] at h
  exact succeeds_quoted (unquote?_flatMap fun x _ => unquote?_escapedChar x) h

end Literal

theorem succeeds_literal_int {n : Int64} (h : c.Faces closers known ((Decimal.intText n.toInt).toList ++ more))
    (hmore : StopsAt isLiteralChar more) :
    Succeeds c (literal .int) fun v e => v = .int n ∧ e.Faces closers known more := by
  have hchars : ∀ x ∈ (Decimal.intText n.toInt).toList, isLiteralChar x = true := fun _ => isLiteralChar_of_mem_intText
  have hne := Decimal.intText_ne_nil n.toInt
  have hvalue : (Literal.int? (Decimal.intText n.toInt)).map Value.int = some (.int n) := by
    unfold Literal.int?
    rw [Decimal.readInt_intText]
    rfl
  unfold literal
  refine Succeeds.look (Succeeds.move ?_)
  have hbegin := h.skipNone (stopsAt_isBlank hne fun x hx => isBlank_of_isLiteralChar (hchars x hx))
  exact Literal.succeeds_scalar hbegin hne hchars hmore hvalue

theorem succeeds_literal_bool {b : Bool} (h : c.Faces closers known ((if b then "true" else "false").toList ++ more))
    (hmore : StopsAt isLiteralChar more) :
    Succeeds c (literal .bool) fun v e => v = .bool b ∧ e.Faces closers known more := by
  have hchars : ∀ x ∈ (if b then "true" else "false").toList, isLiteralChar x = true :=
    List.all_eq_true.mp (by cases b <;> decide)
  have hne : (if b then "true" else "false").toList ≠ [] := by cases b <;> decide
  have hvalue : (Literal.bool? (if b then "true" else "false")).map Value.bool = some (.bool b) := by
    cases b <;> rfl
  unfold literal
  refine Succeeds.look (Succeeds.move ?_)
  have hbegin := h.skipNone (stopsAt_isBlank hne fun x hx => isBlank_of_isLiteralChar (hchars x hx))
  exact Literal.succeeds_scalar hbegin hne hchars hmore hvalue

theorem succeeds_literal_string {s : String} (h : c.Faces closers known ((quotedText s).toList ++ more)) :
    Succeeds c (literal .string) fun v e => v = .string s ∧ e.Faces closers known more := by
  have hbegin : StopsAt isBlank ((quotedText s).toList ++ more) := by
    intro x hx
    rw [quotedText, String.toList_ofList] at hx
    cases hx
    decide
  unfold literal
  refine Succeeds.look (Succeeds.move ?_)
  exact Literal.succeeds_text (h.skipNone hbegin)

/-! ### Names -/

theorem isEmpty_of_toList {s : String} (h : s.toList ≠ []) : s.isEmpty = false := by
  rw [← Bool.not_eq_true]
  intro hempty
  have hnil : s = "" := by simpa using hempty
  exact h (by rw [hnil]; rfl)

theorem succeeds_variableName {name : String} (hname : IsVariableName name) (wanted : Option ValueType)
    (h : c.Faces closers known (("$" ++ name).toList ++ more)) (hmore : StopsAt isVariableChar more) :
    Succeeds c (variableName wanted) fun v e => v = name ∧ e.Faces closers known more := by
  obtain ⟨hne, hletters⟩ := hname
  have hdollar : c.Faces closers known ('$' :: (name.toList ++ more)) := by
    rwa [String.toList_append] at h
  have hskip : c.skipSpace.Faces closers known ('$' :: (name.toList ++ more)) := by
    refine hdollar.skipNone fun x hx => ?_
    cases hx
    decide
  obtain ⟨heaten, hinside⟩ := hskip.eat
  unfold variableName
  refine Succeeds.move (Succeeds.look (Succeeds.step ?_))
  rw [heaten, if_pos rfl]
  generalize (c.skipSpace.eat '$').2 = e at hinside
  obtain ⟨hupcoming, hbehind⟩ := hinside.skip hletters hmore
  refine Succeeds.look (Succeeds.move (Succeeds.look ?_))
  rw [hupcoming, String.ofList_toList]
  generalize e.skip isVariableChar = f at hbehind
  extract_lets behind
  have hyield : Succeeds f (behind ()) fun v e => v = name ∧ e.Faces closers known more := by
    dsimp only [behind]
    rw [isEmpty_of_toList hne]
    exact Succeeds.pure ⟨rfl, hbehind⟩
  split
  · refine Succeeds.look (Succeeds.move ?_)
    rw [hbehind.offer]
    exact hyield
  · exact hyield

/-- Reading a type passes just a spelling of it and the space in front, if no further character of a name follows. -/
theorem succeeds_typeArgument {t : ValueType} {w : String} (hw : ValueType.ofName? w = some t) (command : String)
    {space : List Char} (hspace : ∀ x ∈ space, c.isSpace x = true) (hrest : c.rest = space ++ (w.toList ++ more))
    (hmore : StopsAt isTypeChar more) :
    Succeeds c (typeArgument command) fun u e =>
      u = t ∧ c.Passes (space ++ w.toList) e ∧ e.known = c.known ∧ e.completing = c.completing := by
  obtain ⟨hne, hchars⟩ := ValueType.word_of_ofName? hw
  have hbegin : StopsAt isBlank (w.toList ++ more) := stopsAt_isBlank hne fun x hx => (hchars x hx).2
  obtain ⟨hword, hpassed⟩ := Cursor.word_ahead hspace hrest hne hbegin (fun x hx => (hchars x hx).1) hmore
  unfold typeArgument
  refine Succeeds.move (Succeeds.look (Succeeds.step ?_))
  rw [Cursor.word_skipSpace, hword, String.ofList_toList]
  refine Succeeds.look ?_
  extract_lets behind
  have hyield : ∀ e, (c.word isTypeChar).2.Passes [] e → e.known = c.known → e.completing = c.completing →
      Succeeds e (behind ()) fun u e =>
        u = t ∧ c.Passes (space ++ w.toList) e ∧ e.known = c.known ∧ e.completing = c.completing := by
    intro e he hknown hcompleting
    have hall := hpassed.trans he
    rw [List.append_nil] at hall
    dsimp only [behind]
    rw [hw]
    exact Succeeds.pure ⟨rfl, hall, hknown, hcompleting⟩
  split
  · have hoffered := Cursor.passes_offer (.types w) (c.word isTypeChar).2
    refine Succeeds.move (hyield _ hoffered (Cursor.known_offer _ _) ?_)
    unfold Cursor.offer
    split <;> rfl
  · exact hyield _ (.refl _) rfl rfl

/-- Spellings of types, each behind one space. -/
theorem succeeds_typeArguments (command : String) {types : List ValueType} {words : List String}
    (hwords : words.map ValueType.ofName? = types.map some) (hmore : StopsAt isTypeChar more)
    (h : c.Faces closers known (spaced words ++ more)) :
    Succeeds c (typeArguments command types.length) fun ts e => ts = types ∧ e.Faces closers known more := by
  induction types generalizing c words with
  | nil =>
    obtain rfl := List.map_eq_nil_iff.mp hwords
    exact Succeeds.pure ⟨rfl, h⟩
  | cons t types ih =>
    obtain ⟨w, words, rfl, hw, hwords⟩ := List.map_eq_cons_iff.mp hwords
    have hfirst : c.Faces closers known ([' '] ++ (w.toList ++ (spaced words ++ more))) := by
      rw [spaced_cons, List.cons_append, List.append_assoc] at h
      exact h
    have hstop : StopsAt isTypeChar (spaced words ++ more) := hmore.spaced_append (by decide) words
    have hspace : ∀ x ∈ [' '], c.isSpace x = true := by
      intro x hx
      rw [List.mem_singleton.mp hx]
      unfold Cursor.isSpace
      cases c.newlineEnds <;> rfl
    have hread := succeeds_typeArgument hw command hspace hfirst.rest hstop
    refine hread.bind fun u e ⟨hu, hpassed, hknown, hcompleting⟩ => ?_
    rw [← List.append_assoc] at hfirst
    have he := hfirst.passed hpassed rfl hknown hcompleting
    refine (ih hwords he).bind fun ts f ⟨hts, hf⟩ => Succeeds.pure ⟨?_, hf⟩
    rw [hu, hts]

/-! ### Commands -/

theorem isBlank_of_isCommandChar {x : Char} (h : isCommandChar x = true) : isBlank x = false := by
  unfold isCommandChar at h
  exact (Bool.not_eq_true' _).mp ((Bool.and_eq_true _ _).mp h).1

/-- A word that is the wanted one is passed. -/
theorem Cursor.Faces.eatWord {w : String} (h : c.Faces closers known (w.toList ++ more)) (hne : w.toList ≠ [])
    (hw : ∀ x ∈ w.toList, isBlank x = false) (hmore : StopsAt (!isBlank ·) more) :
    (c.eatWord w).1 = true ∧ (c.eatWord w).2.Faces closers known more := by
  have hletters : ∀ x ∈ w.toList, (!isBlank x) = true := fun x hx => by rw [hw x hx]; rfl
  obtain ⟨hword, hbehind⟩ := (h.skipNone (stopsAt_isBlank hne hw)).word hne hletters hmore
  rw [String.ofList_toList] at hword
  unfold Cursor.eatWord
  dsimp only
  rw [if_pos hword]
  exact ⟨rfl, hbehind⟩

/-- Another word is not, even if what follows goes on without a blank: with a character that the wanted word has not. -/
theorem Cursor.Faces.eatWord_other {w v : String} (h : c.Faces closers known (v.toList ++ more)) (hne : v.toList ≠ [])
    (hv : ∀ x ∈ v.toList, isBlank x = false) (hmore : ∀ x ∈ more.head?, isBlank x = true ∨ x ∉ w.toList)
    (hother : v ≠ w) : c.eatWord w = (false, c) := by
  have hthere := h.skipNone (stopsAt_isBlank hne hv)
  have hletters : c.skipSpace.upcoming (!isBlank ·) = v.toList ++ more.takeWhile (!isBlank ·) := by
    unfold Cursor.upcoming
    rw [hthere.rest, List.takeWhile_append_of_pos fun x hx => by rw [hv x hx]; rfl]
  have hword : (c.word (!isBlank ·)).1 ≠ some w := by
    unfold Cursor.word
    dsimp only
    rw [hletters, if_neg (by simp [hne])]
    intro hfound
    have hw : v.toList ++ more.takeWhile (!isBlank ·) = w.toList := by
      rw [← Option.some.inj hfound, String.toList_ofList]
    cases more with
    | nil =>
      rw [List.takeWhile_nil, List.append_nil] at hw
      exact hother (String.toList_inj.mp hw)
    | cons x more =>
      cases hx : isBlank x with
      | true =>
        rw [List.takeWhile_cons_of_neg (by simp [hx]), List.append_nil] at hw
        exact hother (String.toList_inj.mp hw)
      | false =>
        rw [List.takeWhile_cons_of_pos (by simp [hx])] at hw
        rcases hmore x rfl with hblank | hmem
        · rw [hx] at hblank
          cases hblank
        · exact hmem (hw ▸ List.mem_append_right _ List.mem_cons_self)
  unfold Cursor.eatWord
  dsimp only
  rw [if_neg hword]

theorem succeeds_commandWord {name : String} (h : c.Faces closers known (name.toList ++ more))
    (hne : name.toList ≠ []) (hname : ∀ x ∈ name.toList, isCommandChar x = true)
    (hdigit : StopsAt Char.isDigit name.toList) (hmore : StopsAt isCommandChar more) :
    Succeeds c commandWord fun w e => w = some name ∧ e.Faces closers known more := by
  have hbegin := h.skipNone (stopsAt_isBlank hne fun x hx => isBlank_of_isCommandChar (hname x hx))
  obtain ⟨hword, hbehind⟩ := hbegin.word hne hname hmore
  rw [String.ofList_toList] at hword
  have hpeek : c.peek.any Char.isDigit = false := by
    rw [h.peek]
    cases hletters : name.toList with
    | nil => exact absurd hletters hne
    | cons x letters => exact hdigit x (by rw [hletters]; rfl)
  unfold commandWord
  refine Succeeds.look ?_
  rw [hpeek]
  exact ⟨some name, congrArg some hword, rfl, hbehind⟩

theorem succeeds_subcommand {command : Command} {sub : String} (piped : Option ValueType)
    (h : c.Faces closers known (':' :: (sub.toList ++ more))) (hsub : sub ∈ command.subcommands)
    (hne : sub.toList ≠ []) (hletters : ∀ x ∈ sub.toList, isCommandChar x = true)
    (hmore : StopsAt isCommandChar more) :
    Succeeds c (subcommand command piped) fun s e => s = sub ∧ e.Faces closers known more := by
  obtain ⟨heaten, hinside⟩ := h.eat
  unfold subcommand
  refine Succeeds.step ?_
  rw [heaten, if_pos rfl]
  generalize (c.eat ':').2 = e at hinside
  obtain ⟨hupcoming, hbehind⟩ := hinside.skip hletters hmore
  refine Succeeds.look (Succeeds.look (Succeeds.move (Succeeds.look ?_)))
  rw [hupcoming, String.ofList_toList]
  generalize e.skip isCommandChar = f at hbehind
  extract_lets behind
  have hempty : sub.isEmpty = false := isEmpty_of_toList hne
  refine hbehind.offering ?_
  dsimp only [behind]
  rw [hempty, if_neg (by decide), if_neg (by simp [hsub])]
  refine Succeeds.look ?_
  rw [hbehind.completing]
  exact Succeeds.pure ⟨rfl, hbehind⟩

/-! ### Marks between commands -/

/-- The text begins with no mark that stands between commands. -/
def NoMark (text : List Char) : Prop := ∀ x ∈ text.head?, x ≠ ';' ∧ x ≠ '|' ∧ x ≠ '\n'

namespace Cursor.Faces

variable {text : List Char}

theorem joint?_none (h : c.Faces closers known text) (htext : NoMark text) (t : Option ValueType) :
    c.joint? t = none := by
  have hpeek : ∀ x, (x = ';' ∨ x = '|' ∨ x = '\n') → c.peek ≠ some x := by
    intro x hx hpeek
    rw [h.peek] at hpeek
    obtain ⟨hsemicolon, hbar, hnewline⟩ := htext x hpeek
    rcases hx with hx | hx | hx
    · exact hsemicolon hx
    · exact hbar hx
    · exact hnewline hx
  unfold joint?
  rw [if_neg (hpeek ';' (by simp)), if_neg, if_neg]
  · simp [hpeek '\n' (by simp)]
  · simp [hpeek '|' (by simp)]

theorem joints_none (h : c.Faces closers known text) (htext : NoMark text) (t : Option ValueType) :
    c.joints t = ⟨false, t, c⟩ := by
  unfold joints
  rw [h.joint?_none htext]

/-- Behind the first mark there is no other. -/
theorem moreJoints_none {j : Joint} (h : j.after.Faces closers known text) (htext : NoMark text) (n : Nat) :
    moreJoints n j = j := by
  cases n with
  | zero => rfl
  | succ n =>
    unfold moreJoints
    rw [h.joint?_none htext]
    split <;> rfl

/-- Over a mark with no other behind it, and the spaces there. -/
theorem joints_eq {t : Option ValueType} {j : Joint} (hjoint : c.joint? t = some j)
    (hafter : j.after.skipSpace.Faces closers known text) (htext : NoMark text) :
    c.joints t = { j with after := j.after.skipSpace } := by
  unfold joints
  rw [hjoint]
  exact moreJoints_none hafter htext _

theorem joints_semicolon (h : c.Faces closers known (';' :: ' ' :: text)) (hbegin : StopsAt isBlank text)
    (htext : NoMark text) (t : Option ValueType) :
    (c.joints t).piped = none ∧ (c.joints t).after.Faces closers known text := by
  have hbehind := h.next.skipOne hbegin
  have hjoint : c.joint? t = some ⟨false, none, c.next.2⟩ := by
    have hpeek : c.peek = some ';' := h.peek
    unfold joint?
    rw [if_pos hpeek]
  rw [joints_eq hjoint hbehind htext]
  exact ⟨rfl, hbehind⟩

theorem joints_bar (h : c.Faces closers known ('|' :: ' ' :: text)) (hbegin : StopsAt isBlank text)
    (htext : NoMark text) {t : ValueType} (ht : t ≠ .void) :
    (c.joints (some t)).piped = some t ∧ (c.joints (some t)).after.Faces closers known text := by
  have hbehind := h.next.skipOne hbegin
  have hjoint : c.joint? (some t) = some ⟨true, some t, c.next.2⟩ := by
    have hpeek : c.peek = some '|' := h.peek
    unfold joint?
    rw [if_neg (by rw [hpeek]; decide), if_pos]
    simp [hpeek, ht]
  rw [joints_eq hjoint hbehind htext]
  exact ⟨rfl, hbehind⟩

end Cursor.Faces

end KeyConsole.Console
