import KeyConsole.Proofs.Console.Descent

/-!
# Proofs.Console.Explanations: a reading that fails says why

A reading that begins without a fault leaves one just if it fails.  The fault has the whole source, and its span begins
at a character of the source or at its end.  There is one rule for each part of an expression; what calls itself is
explained once its calls inside are.
-/

namespace KeyConsole.Console

open Text (splitAt?)

/-! ### Places in a source -/

/-- The span is in order and begins at a character of the source or at its end. -/
structure Span.Fits (span : Span) (source : String) : Prop where
  order : span.start ≤ span.stop
  inside : span.start ≤ Text.size source.toList
  boundary : (splitAt? span.start source.toList).isSome

/-- The fault has the source, and a span that fits it. -/
structure Fault.PointsInto (f : Fault) (source : String) : Prop where
  whole : f.source = some source
  place : ∃ span, f.span = some span ∧ span.Fits source

theorem Span.fits_between {source : String} {start stop : Nat} (h : (splitAt? start source.toList).isSome) :
    (Span.between start stop).Fits source := by
  obtain ⟨⟨before, after⟩, hsplit⟩ := Option.isSome_iff_exists.mp h
  obtain ⟨hsource, hsize⟩ := Text.splitAt?_eq_some hsplit
  refine ⟨Span.start_le_stop_between start stop, ?_, h⟩
  rw [hsource, Text.size_append, hsize]
  exact Nat.le_add_right start _

namespace Cursor

variable {c e : Cursor} {text : List Char} {place : Nat}

/-- The place is between two characters of the source, or at its ends. -/
def HasPlace (c : Cursor) (place : Nat) : Prop := (splitAt? place c.source.toList).isSome

theorem InSource.hasPlace (hc : c.InSource) : c.HasPlace c.offset := hc.isSome_splitAt?

theorem Passes.hasPlace (h : c.Passes text e) (hc : c.HasPlace place) : e.HasPlace place := by
  unfold HasPlace
  rw [h.source]
  exact hc

/-! ### Moves that leave the fault alone -/

theorem fault_offer (request : Request) (c : Cursor) : (c.offer request).fault = c.fault := by
  unfold offer
  split <;> rfl

theorem eatCloser_keeps (c : Cursor) : c.eatCloser.2.fault = c.fault ∧ c.eatCloser.2.source = c.source := by
  unfold eatCloser
  split
  · exact ⟨(advances_next c).fault, (advances_next c).passes.source⟩
  · exact ⟨rfl, rfl⟩

/-- What a child is blamed for, its parent is blamed for. -/
theorem fault_absorb {child : Cursor} {f : Fault} {source : String} (hc : c.fault = none)
    (hchild : child.fault = some f) (hf : f.source = some source) : (c.absorb child).fault = some f := by
  have hkeep : (c.keepFault f).fault = some { f with source := some (f.source.getD c.source) } := by
    unfold keepFault
    rw [hc]
    rfl
  have habsorb : (c.absorb child).fault = (c.keepFault f).fault := by
    unfold absorb
    rw [hchild]
    rfl
  rw [habsorb, hkeep, hf]
  congr 1
  obtain ⟨cause, source, span, trace⟩ := f
  cases hf
  rfl

end Cursor

namespace Reading

open Cursor (Passes)

variable {ι α β : Type} {c : Cursor} {x y : Reading α} {k : α → Reading β} {P : List Char → α → Cursor → Prop}

/-! ### Readings that explain their failures -/

/-- From `c` on, where there is no fault, the reading leaves a fault just if it fails, and this points into the
source. -/
structure Explains (c : Cursor) (x : Reading α) : Prop where
  clean : c.fault = none → ∀ a, (x.run.run c).1 = some a → (x.run.run c).2.fault = none
  blamed : c.fault = none → (x.run.run c).1 = none →
    ∃ f, (x.run.run c).2.fault = some f ∧ f.PointsInto c.source

/-- The reading never fails, and it leaves the fault as it is. -/
def Quiet (x : Reading α) : Prop :=
  ∀ c, ∃ text a e, x.run.run c = (some a, e) ∧ c.Passes text e ∧ e.fault = c.fault

namespace Quiet

theorem move {f : Cursor → Cursor} (h : ∀ c : Cursor, ∃ text, c.Advances text (f c)) : Quiet (Reading.move f) := by
  intro c
  obtain ⟨text, htext⟩ := h c
  exact ⟨text, (), f c, rfl, htext.passes, htext.fault⟩

theorem step {f : Cursor → α × Cursor} (h : ∀ c : Cursor, ∃ text, c.Advances text (f c).2) :
    Quiet (Reading.step f) := by
  intro c
  obtain ⟨text, htext⟩ := h c
  exact ⟨text, (f c).1, (f c).2, rfl, htext.passes, htext.fault⟩

theorem skipSpace : Quiet Reading.skipSpace := move fun c => (Cursor.advances_skipSpace c).imp fun _ h => h.1

theorem eat (x : Char) : Quiet (Reading.eat x) := step (Cursor.advances_eat x)

theorem eatWord (w : String) : Quiet (Reading.step (Cursor.eatWord w)) := step (Cursor.advances_eatWord w)

theorem skip (test : Char → Bool) : Quiet (Reading.move (Cursor.skip test)) :=
  move fun c => ⟨_, Cursor.advances_skip test c⟩

theorem word (test : Char → Bool) : Quiet (Reading.step (Cursor.word test)) :=
  step fun c => (Cursor.advances_word test c).imp fun _ h => h.1

theorem offer (request : Request) : Quiet (Reading.move (·.offer request)) :=
  fun c => ⟨[], (), c.offer request, rfl, Cursor.passes_offer request c, Cursor.fault_offer request c⟩

theorem declare (name : String) (t : ValueType) : Quiet (Reading.move (Cursor.declare name t)) :=
  fun c => ⟨[], (), c.declare name t, rfl, Cursor.passes_declare name t c, rfl⟩

end Quiet

namespace Explains

theorem of_same (hy : Explains c y) (h : x.run.run c = y.run.run c) : Explains c x :=
  ⟨by rw [h]; exact hy.clean, by rw [h]; exact hy.blamed⟩

theorem pure {a : α} : Explains c (Pure.pure a) := ⟨fun h _ _ => h, fun _ hnone => (by cases hnone)⟩

theorem refuse {cause : Cause} {start stop : Nat} (h : c.HasPlace start) :
    Explains c (Reading.refuse cause (.between start stop) : Reading α) := by
  refine ⟨fun _ a ha => (by cases ha), fun hfault _ => ?_⟩
  have hblame : (c.blame cause (.between start stop)).fault
      = some { cause, source := some c.source, span := some (.between start stop) } := by
    unfold Cursor.blame Cursor.keepFault
    rw [hfault]
    rfl
  exact ⟨_, hblame, rfl, _, rfl, Span.fits_between h⟩

/-- A reading that fails explains itself, one that does not is followed by another. -/
theorem follow (hx : Explains c x) (hP : Covers c x P)
    (hk : ∀ text a e, c.Passes text e → P text a e → Explains e (k a)) : Explains c (x >>= k) := by
  cases ha : (x.run.run c).1 with
  | none =>
    have hrun := run_bind_none (k := k) ha
    exact ⟨fun _ b hb => (by rw [hrun] at hb; cases hb), fun hfault _ => by rw [hrun]; exact hx.blamed hfault ha⟩
  | some a =>
    obtain ⟨text, htext, ha'⟩ := hP a ha
    have hnext := hk text a _ htext ha'
    have hrun := run_bind_some (k := k) ha
    refine ⟨fun hfault => ?_, fun hfault => ?_⟩
    · rw [hrun]
      exact hnext.clean (hx.clean hfault a ha)
    · rw [hrun, ← htext.source]
      exact hnext.blamed (hx.clean hfault a ha)

/-- A quiet reading first. -/
theorem next (hx : Quiet x) (hk : ∀ text a e, c.Passes text e → Explains e (k a)) : Explains c (x >>= k) := by
  obtain ⟨text, a, e, hrun, htext, hfault⟩ := hx c
  refine follow (P := fun _ b f => b = a ∧ f = e) ⟨fun hnone b _ => ?_, fun _ hnone => ?_⟩ (fun b hb => ?_)
    fun text b f hf _ => hk text b f hf
  · rw [hrun]
    exact hfault.trans hnone
  · rw [hrun] at hnone
    cases hnone
  · rw [hrun] at hb ⊢
    exact ⟨text, htext, (Option.some.inj hb).symm, rfl⟩

theorem look {f : Cursor → α} (hk : Explains c (k (f c))) : Explains c (Reading.look f >>= k) := ⟨hk.clean, hk.blamed⟩

theorem get {k : Cursor → Reading β} (hk : Explains c (k c)) : Explains c (MonadState.get >>= k) :=
  ⟨hk.clean, hk.blamed⟩

/-- Going to a place first. -/
theorem set {e : Cursor} {text : List Char} {k : PUnit → Reading β} (he : c.Passes text e) (hfault : e.fault = c.fault)
    (hk : Explains e (k ⟨⟩)) : Explains c (MonadStateOf.set e >>= k) := by
  refine ⟨fun hnone => hk.clean (hfault.trans hnone), fun hnone => ?_⟩
  rw [← he.source]
  exact hk.blamed (hfault.trans hnone)

theorem ite {p : Prop} [Decidable p] (hx : p → Explains c x) (hy : ¬p → Explains c y) :
    Explains c (if p then x else y) := by
  split
  · rename_i h
    exact hx h
  · rename_i h
    exact hy h

/-- What is read inside a block up to its closing mark, where `z` refuses a block that is not closed. -/
theorem enclosed {mark : Char} {z : Reading α} (hx : Explains (c.pushCloser mark) x)
    (hP : Covers (c.pushCloser mark) x P) (hz : ∀ e : Cursor, e.source = c.source → Explains e z) :
    Explains c
      (Reading.move (·.pushCloser mark) >>= fun _ => x >>= fun a =>
        Reading.step Cursor.eatCloser >>= fun closed => if closed then Pure.pure a else z) := by
  have hinside : Explains (c.pushCloser mark) (x >>= fun a =>
      Reading.step Cursor.eatCloser >>= fun closed => if closed then Pure.pure a else z) := by
    refine follow hx hP fun text a e htext _ => ?_
    obtain ⟨hfault, hsource⟩ := Cursor.eatCloser_keeps e
    have hbehind : Explains e.eatCloser.2 (if e.eatCloser.1 then Pure.pure a else z) :=
      ite (fun _ => pure) fun _ => hz _ (hsource.trans htext.source)
    refine ⟨fun hnone => hbehind.clean (hfault.trans hnone), fun hnone => ?_⟩
    rw [← hsource]
    exact hbehind.blamed (hfault.trans hnone)
  exact ⟨hinside.clean, hinside.blamed⟩

end Explains

/-- The reading explains its failures wherever it begins in a source. -/
def Explaining (x : Reading α) : Prop := ∀ c : Cursor, c.InSource → Explains c x

theorem explaining_refuseEnd : Explaining (refuseEnd : Reading α) :=
  fun _ hc => Explains.look (Explains.refuse hc.hasPlace)

/-- A recursion that ends explains its failures, if each call explains them once the calls inside it do. -/
theorem Ends.explaining {F : (ι → Reading α) → ι → Reading α} {result : ι → Reading α} (h : Ends F result)
    (hF : ∀ y : ι → Reading α, (∀ j, Forward (y j)) → (∀ j, Explaining (y j)) → ∀ i, Explaining (F y i)) (i : ι) :
    Explaining (result i) := by
  have hiterate : ∀ n i, Forward (F^[n] (fun _ => refuseEnd) i) ∧ Explaining (F^[n] (fun _ => refuseEnd) i) := by
    intro n
    induction n with
    | zero => exact fun _ => ⟨passing_refuseEnd.forward, explaining_refuseEnd⟩
    | succ n ih =>
      intro i
      rw [Function.iterate_succ_apply']
      refine ⟨fun c => ?_, hF _ (fun j => (ih j).1) (fun j => (ih j).2) i⟩
      exact (h.descends c _ _ (fun e _ j => ⟨rfl, (ih j).1 e⟩) i).forward
  intro c hc
  exact ((hiterate (c.left + 1) i).2 c hc).of_same (h.bounded _ _ i c (Nat.lt_succ_self _)).symm

end Reading

open Reading Cursor

/-! ### Literals -/

namespace Literal

variable {c : Cursor} {t : ValueType} {item : Reading Value}

theorem explains_unreadable {α : Type} {start : Nat} {input : String} (h : c.HasPlace start) :
    Explains c (unreadable start input t : Reading α) := Explains.look (Explains.refuse h)

theorem explaining_scalar {value? : String → Option Value} : Explaining (scalar t value?) := by
  intro c hc
  refine Explains.look (Explains.next (.word _) fun _ w e he => ?_)
  dsimp only
  split
  · exact .pure
  · exact explains_unreadable (he.hasPlace hc.hasPlace)

theorem explaining_text : Explaining text := by
  intro c hc
  refine Explains.look (Explains.next (.eat '"') fun _ quoted e he => Explains.ite (fun _ => ?_) fun _ => ?_)
  · refine Explains.get ?_
    split
    · rename_i s rest hsplit
      obtain ⟨quoted, hquoted⟩ := append_of_unquote? hsplit
      have hsize : Text.size e.rest - Text.size rest = Text.size quoted := by
        rw [hquoted, Text.size_append, Nat.add_sub_cancel]
      have hpassed : e.Passes quoted { e with rest, offset := e.offset + (Text.size e.rest - Text.size rest) } :=
        ⟨hquoted, by rw [hsize], rfl, rfl, rfl⟩
      exact Explains.set hpassed rfl .pure
    · have hpassed : e.Passes e.rest { e with rest := [], offset := e.offset + Text.size e.rest } :=
        ⟨(List.append_nil _).symm, rfl, rfl, rfl, rfl⟩
      exact Explains.set hpassed rfl (explains_unreadable (he.hasPlace hc.hasPlace))
  · refine Explains.next (.word _) fun _ w f hf => ?_
    split
    · exact .pure
    · exact explains_unreadable (hf.hasPlace (he.hasPlace hc.hasPlace))

theorem explaining_round {rest : List Value → Reading (List Value)} (hitem : Explaining item) (hforward : Forward item)
    (hrest : ∀ read, Explaining (rest read)) (read : List Value) : Explaining (round t item rest read) := by
  intro c hc
  refine Explains.next .skipSpace fun _ _ a ha => Explains.next (.eat ']') fun _ _ b hb => Explains.ite (fun _ => .pure)
    fun _ => ?_
  have hinside := hb.inSource (ha.inSource hc)
  refine Explains.follow (hitem b hinside) (hforward b) fun _ v e he _ => Explains.next .skipSpace fun _ _ f hf =>
    Explains.next (.eat ',') fun _ _ g hg => ?_
  have hg := hg.inSource (hf.inSource (he.inSource hinside))
  refine Explains.ite (fun _ => hrest _ g hg) fun _ => Explains.next (.eat ']') fun _ _ last hlast => ?_
  refine Explains.ite (fun _ => .pure) fun _ => Explains.look (Explains.look (Explains.refuse ?_))
  exact (hlast.inSource hg).hasPlace

/-- What goes wrong in the block of a list is what is wrong with the list. -/
theorem explaining_list (hitem : Explaining item) (hforward : Forward item) : Explaining (list t item) := by
  have hitems : ∀ read, Explaining (allItems t item read) :=
    (ends_allItems hforward).explaining fun _ _ hrest => explaining_round hitem hforward hrest
  intro c hc
  have hrun := @run_list t item c
  cases hslice : c.slice? '[' ']' with
  | none =>
    rw [hslice] at hrun
    exact (explains_unreadable hc.hasPlace).of_same hrun
  | some found =>
    obtain ⟨child, after⟩ := found
    obtain ⟨space, block, -, -, -, hchild, hafter⟩ := exists_of_slice? hslice
    have hread := hitems [] child (inSource_of_slice? hslice hc)
    rw [hslice] at hrun
    dsimp only at hrun
    cases hend : (allItems t item []).run.run child with
    | mk vs last =>
      rw [hend] at hrun
      have hchildFault : child.fault = none := by rw [hchild]
      have hafterFault : after.fault = c.fault := by rw [hafter]
      cases vs with
      | some vs =>
        refine ⟨fun hnone _ _ => ?_, fun _ hnone => ?_⟩
        · rw [hrun]
          exact hafterFault.trans hnone
        · rw [hrun] at hnone
          cases hnone
      | none =>
        refine ⟨fun _ v hv => ?_, fun hnone _ => ?_⟩
        · rw [hrun] at hv
          cases hv
        · obtain ⟨f, hf, hpoints⟩ := hread.blamed hchildFault (by rw [hend])
          rw [hend] at hf
          have hsource : child.source = c.source := by rw [hchild]
          rw [hsource] at hpoints
          rw [hrun]
          exact ⟨f, fault_absorb (hafterFault.trans hnone) hf hpoints.whole, hpoints⟩

theorem explaining_bareWord : Explaining bareWord := by
  intro c hc
  refine Explains.look (Explains.next (.word _) fun _ w e he => ?_)
  split
  · exact .pure
  · exact explains_unreadable (he.hasPlace hc.hasPlace)

theorem explaining_form {literals : ValueType → Reading Value} (hforward : ∀ t, Forward (literals t))
    (hliterals : ∀ t, Explaining (literals t)) (t : ValueType) : Explaining (form literals t) := by
  intro c hc
  refine Explains.next .skipSpace fun _ _ b hb => ?_
  have hb := hb.inSource hc
  cases t with
  | void => exact Explains.look (explains_unreadable hb.hasPlace)
  | int => exact explaining_scalar b hb
  | float => exact explaining_scalar b hb
  | bool => exact explaining_scalar b hb
  | string => exact explaining_text b hb
  | list element => exact explaining_list (hliterals _) (hforward _) b hb
  | any =>
    refine Explains.look ?_
    split
    · exact explaining_list (hliterals _) (hforward _) b hb
    · exact explaining_text b hb
    · exact explaining_bareWord b hb

end Literal

namespace Reading

theorem explaining_literal (t : ValueType) : Explaining (literal t) :=
  Literal.ends_literal.explaining (fun _ hforward hliterals => Literal.explaining_form hforward hliterals) t

/-! ### Types and names -/

theorem explaining_typeArgument (command : String) : Explaining (typeArgument command) := by
  intro c hc
  refine Explains.next .skipSpace fun _ _ b hb => Explains.look (Explains.next (.word _) fun _ w e he => ?_)
  have hplace := he.hasPlace (hb.inSource hc).hasPlace
  cases w with
  | none =>
    refine Explains.look ?_
    extract_lets refused
    exact Explains.ite (fun _ => Explains.next (.offer _) fun _ _ f hf => Explains.refuse (hf.hasPlace hplace))
      fun _ => Explains.refuse hplace
  | some w =>
    refine Explains.look ?_
    extract_lets behind
    have hbehind : ∀ {f : Cursor} u, f.HasPlace b.offset → Explains f (behind u) := by
      intro f u hf
      dsimp only [behind]
      split
      · exact .pure
      · exact Explains.look (Explains.refuse hf)
    exact Explains.ite (fun _ => Explains.next (.offer _) fun _ _ f hf => hbehind () (hf.hasPlace hplace))
      fun _ => hbehind () hplace

theorem explaining_typeArguments (command : String) (n : Nat) : Explaining (typeArguments command n) := by
  induction n with
  | zero => exact fun _ _ => .pure
  | succ n ih =>
    intro c hc
    refine Explains.follow (explaining_typeArgument command c hc) (passing_typeArgument command c) fun _ t e he _ => ?_
    exact Explains.follow (ih e (he.inSource hc)) (passing_typeArguments command n e) fun _ _ _ _ _ => .pure

theorem explaining_variableName (wanted : Option ValueType) : Explaining (variableName wanted) := by
  intro c hc
  refine Explains.next .skipSpace fun _ _ b hb => Explains.look (Explains.next (.eat '$') fun _ dollar e he => ?_)
  have hb := hb.inSource hc
  have hplace := he.hasPlace hb.hasPlace
  refine Explains.ite (fun _ => ?_) fun _ => Explains.look (Explains.refuse hplace)
  refine Explains.look (Explains.next (.skip _) fun _ _ f hf => Explains.look ?_)
  extract_lets behind
  have hbehind : ∀ {g : Cursor} u, g.InSource → g.HasPlace b.offset → Explains g (behind u) := fun u hg hplace =>
    Explains.ite (fun _ => Explains.look (Explains.ite (fun _ => explaining_refuseEnd _ hg)
      fun _ => Explains.look (Explains.refuse hplace))) fun _ => .pure
  have hf' := hf.inSource (he.inSource hb)
  refine Explains.ite (fun _ => Explains.look (Explains.next (.offer _) fun _ _ g hg => ?_))
    fun _ => hbehind () hf' (hf.hasPlace hplace)
  exact hbehind () (hg.inSource hf') (hg.hasPlace (hf.hasPlace hplace))

theorem explaining_subcommand (registered : Command) (piped : Option ValueType) :
    Explaining (subcommand registered piped) := by
  intro c hc
  refine Explains.next (.eat ':') fun _ colon b hb => Explains.ite (fun _ => ?_) fun _ => ?_
  · have hb := hb.inSource hc
    refine Explains.look (Explains.look (Explains.next (.skip _) fun _ _ e he => Explains.look ?_))
    extract_lets behind
    have hbehind : ∀ {f : Cursor} u, f.InSource → f.HasPlace b.offset → Explains f (behind u) := fun u hf hplace =>
      Explains.ite (fun _ => .refuse hplace) fun _ =>
        Explains.ite (fun _ => Explains.look (Explains.refuse hplace)) fun _ =>
          Explains.look (Explains.ite (fun _ => explaining_refuseEnd _ hf) fun _ => .pure)
    have he' := he.inSource hb
    refine Explains.ite (fun _ => Explains.next (.offer _) fun _ _ f hf => ?_)
      fun _ => hbehind () he' (he.hasPlace hb.hasPlace)
    exact hbehind () (hf.inSource he') (hf.hasPlace (he.hasPlace hb.hasPlace))
  · have hb := hb.inSource hc
    refine Explains.look (Explains.look (Explains.ite (fun _ => ?_) fun _ => Explains.refuse hb.hasPlace))
    exact Explains.next (.offer _) fun _ _ e he => explaining_refuseEnd e (he.inSource hb)

theorem explains_refuseCommand {α : Type} {c : Cursor} {piped : Option ValueType} {start : Nat} (h : c.HasPlace start) :
    Explains c (refuseCommand piped start : Reading α) := by
  refine Explains.get (Explains.ite (fun _ => ?_) fun _ => Explains.ite (fun _ => .refuse h) fun _ => .refuse h)
  exact Explains.next (.offer _) fun _ _ e he => Explains.refuse (he.hasPlace h)

theorem quiet_commandWord : Quiet commandWord := by
  intro c
  unfold commandWord
  cases hdigit : c.peek.any Char.isDigit with
  | true => exact ⟨[], none, c, by rw [run_look, hdigit]; rfl, .refl c, rfl⟩
  | false =>
    obtain ⟨text, a, e, hrun, h⟩ := Quiet.word isCommandChar c
    exact ⟨text, a, e, by rw [run_look, hdigit]; exact hrun, h⟩

/-! ### Heads of commands -/

section

variable {d : Directory} {piped : Option ValueType} {nameStart : Nat} {inverted : Bool} {name : String} {c : Cursor}

theorem explains_headTypes (hc : c.InSource) (hplace : c.HasPlace nameStart) (registered : Command)
    (sub : Option String) : Explains c (headTypes d piped nameStart inverted name registered sub) := by
  refine Explains.follow (explaining_typeArguments _ _ c hc) (passing_typeArguments _ _ c) fun _ types e he _ => ?_
  unfold headSignature
  split
  · exact Explains.look (Explains.refuse (he.hasPlace hplace))
  · exact .pure

theorem explains_headBehindName (hc : c.InSource) (hplace : c.HasPlace nameStart) :
    Explains c (headBehindName d piped nameStart inverted name) := by
  unfold headBehindName
  split
  · refine Explains.look ?_
    extract_lets refused
    exact Explains.ite (fun _ => Explains.next (.offer _) fun _ _ e he =>
      Explains.look (Explains.refuse (he.hasPlace hplace))) fun _ => Explains.look (Explains.refuse hplace)
  · rename_i registered _
    have hbehind : ∀ {sub e}, e.InSource → e.HasPlace nameStart →
        Explains e (headBehindSubcommand d piped nameStart inverted name registered sub) := fun he hplace =>
      Explains.look (Explains.ite
        (fun _ => Explains.next (.offer _) fun _ _ f hf => explaining_refuseEnd f (hf.inSource he))
        fun _ => explains_headTypes he hplace registered _)
    refine Explains.ite (fun _ => ?_) fun _ => hbehind hc hplace
    have hsubcommand : Explains c (subcommand registered piped >>= fun sub => Pure.pure (some sub)) :=
      Explains.follow (explaining_subcommand registered piped c hc) (passing_subcommand _ _ c)
        fun _ _ _ _ _ => .pure
    exact Explains.follow hsubcommand (Passing.next (passing_subcommand _ _) (fun _ => .pure) c)
      fun _ sub e he _ => hbehind (he.inSource hc) (he.hasPlace hplace)

theorem explaining_commandHead (d : Directory) (piped : Option ValueType) : Explaining (commandHead d piped) := by
  intro c hc
  refine Explains.next .skipSpace fun _ _ c₁ h₁ => Explains.next (.eatWord _) fun _ inverted c₂ h₂ =>
    Explains.next .skipSpace fun _ _ c₃ h₃ => Explains.look (Explains.next quiet_commandWord fun _ word c₄ h₄ => ?_)
  have hc₃ := h₃.inSource (h₂.inSource (h₁.inSource hc))
  have hplace := h₄.hasPlace hc₃.hasPlace
  split
  · exact explains_refuseCommand hplace
  · exact explains_headBehindName (h₄.inSource hc₃) hplace

end

/-! ### Blocks, arguments and commands -/

section

variable {d : Directory} {nested : BlockReading} {once : Bool} {command : String} {piped target : Option ValueType}
  (hforward : ∀ once piped target, Forward (nested once piped target))
  (hnested : ∀ once piped target, Explaining (nested once piped target))

include hforward

theorem forward_block : Forward (block nested piped target) := fun _ =>
  covers_block_of (fun _ _ => (hforward false piped target _).mono fun _ _ _ _ _ _ _ _ => trivial)
    fun _ _ => hforward true piped target _

theorem forward_argument (p : Parameter) : Forward (argument nested command piped p) := fun _ =>
  covers_argument_of (fun _ _ _ => trivial) (fun _ _ _ => forward_block hforward _)
    (fun _ _ _ => forward_block hforward _) fun _ _ _ => trivial

theorem forward_arguments (ps : List Parameter) : Forward (arguments nested command piped ps) := by
  induction ps with
  | nil => exact fun _ => .pure trivial
  | cons p ps ih =>
    intro c
    refine Covers.bind (forward_argument hforward p c) fun _ a e _ _ => Covers.look ?_
    exact Covers.bind (ih e) fun _ _ _ _ _ => .pure trivial

include hnested

theorem explaining_block : Explaining (block nested piped target) := by
  intro c hc
  refine Explains.next .skipSpace fun _ _ b hb => Explains.look (Explains.next (.eat '{') fun _ brace e he => ?_)
  have hb := hb.inSource hc
  have he' := he.inSource hb
  refine Explains.ite (fun _ => ?_) fun _ => hnested true piped target e he'
  have hpushed : (e.pushCloser '}').InSource := he'
  refine Explains.enclosed (hnested false piped target _ hpushed) (hforward false piped target _) fun f hf => ?_
  refine Explains.look (Explains.refuse ?_)
  have hplace := he.hasPlace hb.hasPlace
  unfold HasPlace at hplace ⊢
  rwa [hf]

theorem explaining_argument (p : Parameter) : Explaining (argument nested command piped p) := by
  intro c hc
  refine Explains.next .skipSpace fun _ _ b hb => Explains.get ?_
  have hb := hb.inSource hc
  have hvariable : ∀ {wanted} {make : String → Argument},
      Explains b (variableName wanted >>= fun name => Pure.pure (make name)) := fun {wanted} {make} =>
    Explains.follow (explaining_variableName wanted b hb) (passing_variableName wanted b) fun _ _ _ _ _ => .pure
  have hblock : ∀ {piped target} {make : Pipeline → Argument},
      Explains b (block nested piped target >>= fun q => Pure.pure (make q)) := fun {piped target} {make} =>
    Explains.follow (explaining_block hforward hnested b hb) (forward_block hforward b) fun _ _ _ _ _ => .pure
  refine Explains.ite (fun _ => ?_) fun _ => Explains.ite (fun _ => .refuse hb.hasPlace) fun _ => ?_
  · exact Explains.next (.offer _) fun _ _ e he => explaining_refuseEnd e (he.inSource hb)
  · cases p.kind with
    | value t =>
      dsimp only
      split
      · exact hvariable
      · exact hblock
      · exact Explains.follow (explaining_literal t b hb) (passing_literal t b) fun _ _ _ _ _ => .pure
    | block feed output => exact hblock
    | assign =>
      refine Explains.follow (explaining_variableName _ b hb) (passing_variableName _ b) fun _ name e _ _ => ?_
      exact Explains.next (.declare _ _) fun _ _ _ _ => .pure
    | «variable» => exact hvariable

theorem explaining_arguments (ps : List Parameter) : Explaining (arguments nested command piped ps) := by
  induction ps with
  | nil => exact fun _ _ => .pure
  | cons p ps ih =>
    intro c hc
    refine Explains.follow (explaining_argument hforward hnested p c hc) (forward_argument hforward p c)
      fun _ a e he _ => Explains.look ?_
    exact Explains.follow (ih e (he.inSource hc)) (forward_arguments hforward ps e) fun _ _ _ _ _ => .pure

theorem explaining_command (start : Nat) : Explaining (Reading.command d nested piped start) := by
  intro c hc
  refine Explains.follow (explaining_commandHead d piped c hc) (covers_commandHead d piped c) fun _ head e he _ => ?_
  exact Explains.follow (explaining_arguments hforward hnested _ e (he.inSource hc)) (forward_arguments hforward _ e)
    fun _ read f _ _ => Explains.look .pure

theorem explaining_row {rest : Option ValueType → Reading Steps} (hrestForward : ∀ piped, Forward (rest piped))
    (hrest : ∀ piped, Explaining (rest piped)) (piped : Option ValueType) :
    Explaining (row d nested once rest piped) := by
  intro c hc
  have hcommand : ∀ start, Forward (Reading.command d nested piped start) := fun start c =>
    (alike_command (fun e _ once piped target => .refl (hforward once piped target e)) start).forward
  refine Explains.look ?_
  refine Explains.follow (explaining_command hforward hnested _ c hc) (hcommand _ c) fun _ s a ha _ => ?_
  refine Explains.ite (fun _ => .pure) fun _ => Explains.look ?_
  refine Explains.next .skipSpace fun _ _ b hb => Explains.look ?_
  obtain ⟨marks, hmarks, -⟩ := advances_joints (some s.returns) b
  have he := hmarks.passes.inSource (hb.inSource (ha.inSource hc))
  refine Explains.set hmarks.passes hmarks.fault (Explains.get ?_)
  refine Explains.ite (fun _ => .pure) fun _ => Explains.ite (fun _ => .refuse he.hasPlace) fun _ =>
    Explains.ite (fun _ => ?_) fun _ => Explains.ite (fun _ => ?_) fun _ =>
      Explains.ite (fun _ => .refuse he.hasPlace) fun _ => ?_
  · exact Explains.next (.offer _) fun _ _ f hf => explaining_refuseEnd f (hf.inSource he)
  · extract_lets ended
    exact Explains.ite (fun _ => Explains.next (.offer _) fun _ _ _ _ => .pure) fun _ => .pure
  · exact Explains.follow (hrest _ _ he) (hrestForward _ _) fun _ _ _ _ _ => .pure

omit hnested in
/-- The first step begins where the row of them does. -/
theorem covers_start (c : Cursor) : Covers c (commands d nested once piped) fun _ r _ =>
    ∀ s ∈ r.steps.head?, s.span.start = c.offset := by
  have hcommand : ∀ {c : Cursor} {piped}, Covers c (Reading.command d nested piped c.offset) fun _ s _ =>
      s.span.start = c.offset := fun {c piped} =>
    covers_command_of fun _ _ _ _ _ => (forward_arguments hforward _ _).mono fun _ _ _ _ _ => rfl
  have hcommands : Covers c (commands d nested once piped) fun _ r e =>
      (∀ s ∈ r.steps.head?, s.span.start = c.offset) ∧ (once = false → e.atCloser ∨ e.atEnd) :=
    covers_commands_of (I := fun _ => True) (R := fun c _ steps _ => ∀ s ∈ steps.head?, s.span.start = c.offset)
      (fun _ _ => trivial) (fun _ => hcommand) (fun _ hs _ _ _ t ht => Option.some.inj ht ▸ hs)
      (fun _ hs _ _ _ _ t ht => Option.some.inj ht ▸ hs) trivial once piped
  exact hcommands.mono fun _ _ _ _ h => h.1

theorem explaining_commands : Explaining (commands d nested once piped) :=
  (ends_commands d once hforward).explaining
    (fun _ hrestForward hrest => explaining_row hforward hnested hrestForward hrest) piped

theorem explaining_pipeline : Explaining (pipeline d nested once piped target) := by
  intro c hc
  refine Explains.next .skipSpace fun _ _ b hb => Explains.look (Explains.look ?_)
  have hb := hb.inSource hc
  extract_lets behind
  have hbehind : ∀ u, Explains b (behind u) := by
    intro u
    refine Explains.follow (explaining_commands hforward hnested b hb) (covers_start hforward b)
      fun _ read e he hstart => ?_
    refine Explains.ite (fun _ => Explains.look .pure) fun _ => Explains.look (Explains.refuse ?_)
    have hplace := he.hasPlace hb.hasPlace
    cases hhead : read.steps.head? with
    | none => exact hplace
    | some s =>
      have hfirst : s.span.start = b.offset := hstart s hhead
      exact hfirst ▸ hplace
  refine Explains.ite (fun _ => ?_) fun _ => hbehind ()
  exact Explains.follow (P := fun _ _ _ => False) (.refuse hb.hasPlace) .refuse fun _ _ _ _ hfalse => hfalse.elim

end

/-- However deep blocks are nested, their readings explain their failures. -/
theorem explaining_blocks (d : Directory) (kind : BlockKind) : Explaining (blocks d kind) :=
  (ends_blocks d).explaining (fun _ hforward hblocks _ =>
    explaining_pipeline (fun _ _ _ => hforward _) fun _ _ _ => hblocks _) kind

end Reading

end KeyConsole.Console
