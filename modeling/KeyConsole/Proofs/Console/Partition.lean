import KeyConsole.Proofs.Console.Noninterference
import KeyConsole.Proofs.Console.WellTypedRuns
import Mathlib.Data.List.Sort

/-!
# Proofs.Console.Partition: a list and the items that a block answers with true

`where` with a block that depends on its input only keeps the items that the block by itself answers with true, and
`not where` keeps the others.  Put back in their places, the two are the list again.
-/

namespace KeyConsole.Console

open Eval
open ValueType (AdmitsPiped)

variable {d : Directory} {P : Step → Prop} {listing : List String} {r : Running}

/-! ### Steps inside a typed pipeline -/

theorem inner_induction : TypedInduction d (fun p => p.Has P → ∃ s, P s ∧ s.Typed d)
    fun s => s.Has P → ∃ t, P t ∧ t.Typed d where
  done _ _ _ _ := False.elim
  next _ _ _ _ _ hs _ hrest hhas := hhas.elim hs hrest
  step s hs hblocks hhas := by
    rcases s.has_iff.mp hhas with hown | ⟨a, ha, p, hp, hinner⟩
    · exact ⟨s, hown, hs⟩
    · exact hblocks a ha p hp hinner

/-- A step inside a typed pipeline is typed. -/
theorem Pipeline.typed_of_has {p : Pipeline} (hp : p.Typed d) (hhas : p.Has P) : ∃ s, P s ∧ s.Typed d :=
  inner_induction.pipeline p hp hhas

mutual

/-- If a command is mentioned, some step inside the pipeline is of its name. -/
theorem Pipeline.has_of_mentions {name : String} (h : ∀ s : Step, s.name = name → P s) :
    (p : Pipeline) → p.mentions name → p.Has P
  | ⟨steps, _, _, _⟩, hmentions => stepsHave_of_mention h steps hmentions

theorem stepsHave_of_mention {name : String} (h : ∀ s : Step, s.name = name → P s) :
    (steps : List Step) → stepsMention name steps → stepsHave P steps
  | s :: rest, hmentions => by
    rcases (Bool.or_eq_true _ _).mp hmentions with hs | hrest
    · exact Or.inl (s.has_of_mentions h hs)
    · exact Or.inr (stepsHave_of_mention h rest hrest)

theorem Step.has_of_mentions {name : String} (h : ∀ s : Step, s.name = name → P s) :
    (s : Step) → s.mentions name → s.Has P
  | ⟨own, subcommand, inverted, piped, types, arguments, signature, returns, span⟩, hmentions => by
    rcases (Bool.or_eq_true _ _).mp hmentions with hname | harguments
    · exact Or.inl (h _ (eq_of_beq hname))
    · exact Or.inr (argumentsHave_of_mention h arguments harguments)

theorem argumentsHave_of_mention {name : String} (h : ∀ s : Step, s.name = name → P s) :
    (arguments : List Argument) → argumentsMention name arguments → argumentsHave P arguments
  | a :: rest, hmentions => by
    rcases (Bool.or_eq_true _ _).mp hmentions with ha | hrest
    · refine Or.inl ?_
      match a with
      | .valueBlock p => exact p.has_of_mentions h ha
      | .block p => exact p.has_of_mentions h ha
    · exact Or.inr (argumentsHave_of_mention h rest hrest)

end

/-! ### The command that keeps items -/

/-- The one signature of `where`. -/
theorem Builtin.signature_of_where {c : Command} {s : Signature} (hc : Directory.builtin.get? "where" = some c)
    (hs : s ∈ c.signatures) :
    s.piped = some (.list .any) ∧ s.parameters = [⟨"check", .block .element (some .bool)⟩] ∧
      ∀ call : Call, s.run call = (do
        let items ← pipedList call
        return .list (← keepItems (fun v => call.runBlock 0 (some v)) (!call.inverted) items [])) := by
  have hlast : Directory.builtin.get? "where" = lists.getLast? := rfl
  rw [hlast] at hc
  cases hc
  obtain rfl := List.mem_singleton.mp hs
  exact ⟨rfl, rfl, fun _ => rfl⟩

/-- If the block answers each item, whatever was asked before, the items kept are those with the answer wanted. -/
theorem Builtin.keepItems_run {run : Value → Eval Value} {answer : Value → Bool} (wanted : Bool)
    (items done : List Value)
    (hrun : ∀ v ∈ items, ∀ r₁, Steady r r₁ →
      ∃ r₂, (run v).run.run r₁ = (.ok (.bool (answer v)), r₂) ∧ Steady r₁ r₂) :
    ∃ r', (keepItems run wanted items done).run.run r =
      (.ok (done.reverse ++ items.filter fun v => answer v = wanted), r') := by
  induction items generalizing done r with
  | nil => exact ⟨r, by rw [List.filter_nil, List.append_nil]; rfl⟩
  | cons v rest ih =>
    obtain ⟨r', hv, hsteady⟩ := hrun v List.mem_cons_self r (Steady.refl r)
    have hrest : ∀ w ∈ rest, ∀ r₁, Steady r' r₁ →
        ∃ r₂, (run w).run.run r₁ = (.ok (.bool (answer w)), r₂) ∧ Steady r₁ r₂ :=
      fun w hw r₁ h => hrun w (List.mem_cons_of_mem _ hw) r₁ (hsteady.trans h)
    obtain ⟨r'', hkept⟩ := ih (if (Value.bool (answer v)).bool? = some wanted then v :: done else done) hrest
    refine ⟨r'', ?_⟩
    unfold keepItems
    rw [ExceptT.run_bind, StateT.run_bind, hv]
    show (keepItems run wanted rest _).run.run r' = _
    rw [hkept]
    by_cases hwanted : answer v = wanted <;> simp [Value.bool?, hwanted]

theorem Run.enter_run (t : Turn) (r : Running) :
    (Run.enter t).run r = pure (⟨⟩, { r with journal := t :: r.journal }) := rfl

theorem Run.settle_ok {x : Eval Value} {v : Value} {r' : Running} (h : x.run.run r = (.ok v, r')) :
    (Run.settle x).run r = (some v, r') := by
  unfold settle
  rw [StateT.run_bind, h]
  rfl

section

variable {newlineEnds : Bool} {s : Step} {p : Pipeline} {items : List Value}
  (hs : s.Typed (Directory.builtinWith newlineEnds)) (hname : s.name = "where") (hargument : s.arguments = [.block p])

include hs hname hargument

/-- If it may run, `where` keeps the items with the answer that it waits for. -/
theorem Step.run_where {answer : Value → Bool}
    (hrun : ∀ v ∈ items, ∀ r₁, Steady r r₁ →
      ∃ r₂, (p.runNested listing (some v)).run r₁ = (some (.bool (answer v)), r₂) ∧ Steady r₁ r₂) :
    ((s.run listing (.list items)).run r).1 = if r.grants s.span.start "where" then
      some (.list (items.filter fun v => answer v = !s.inverted)) else none := by
  obtain ⟨name, subcommand, inverted, piped, types, arguments, signature, returns, span⟩ := s
  dsimp only at hname hargument ⊢
  subst hname hargument
  obtain ⟨-, c, variableTypes, hc, hsignature, -⟩ := hs
  obtain ⟨-, -, hsignatureRun⟩ := Builtin.signature_of_where hc (Command.resolve?_spec hsignature).1
  have hpermits : (Run.permits span.start "where").run r =
      (r.grants span.start "where", ((Run.permits span.start "where").run r).2) := rfl
  have hlooked := Steady.permits r span.start "where"
  unfold Step.run
  rw [StateT.run_bind, hpermits]
  generalize ((Run.permits span.start "where").run r).2 = seen at hlooked
  cases hgrants : r.grants span.start "where" with
  | false => rfl
  | true =>
    let site : Site := { name := "where", subcommand, span, piped, returns }
    let call : Call := { piped := .list items, inverted, types, arguments := bindAll listing [.block p], listing }
    let started : Running := { seen with journal := .started site (.list items) :: seen.journal }
    have hblock : ∀ v ∈ items, ∀ r₁, Steady started r₁ →
        ∃ r₂, (call.runBlock 0 (some v)).run.run r₁ = (.ok (.bool (answer v)), r₂) ∧ Steady r₁ r₂ := by
      intro v hv r₁ h
      obtain ⟨r₂, hvalue, hsteady⟩ := hrun v hv r₁ ((hlooked.trans (Steady.enter seen _)).trans h)
      refine ⟨r₂, ?_, hsteady⟩
      rw [Call.runBlock_eq (c := call) rfl, asBlock_run, hvalue]
      rfl
    obtain ⟨r', hkept⟩ := Builtin.keepItems_run (!inverted) items [] hblock
    have hcall : (signature.run call).run.run started =
        (.ok (.list (items.filter fun v => answer v = !inverted)), r') := by
      rw [hsignatureRun, Builtin.pipedList_eq rfl, pure_bind, ExceptT.run_bind, StateT.run_bind, hkept]
      rfl
    show (((if true = true then _ else _ : Run (Option Value))).run seen).1 = _
    rw [if_pos rfl, StateT.run_bind, Run.enter_run, pure_bind, StateT.run_bind, Run.settle_ok hcall]
    rfl

/-- The block of a `where` takes an item of the list and returns a truth value. -/
theorem Step.block_of_where : p.Typed (Directory.builtinWith newlineEnds) ∧ p.returns = .bool ∧
    ∀ items, AdmitsPiped s.piped (.list items) → ∀ v ∈ items, AdmitsPiped p.piped v := by
  obtain ⟨name, subcommand, inverted, piped, types, arguments, signature, returns, span⟩ := s
  dsimp only at hname hargument ⊢
  subst hname hargument
  obtain ⟨harguments, c, variableTypes, hc, hsignature, -⟩ := hs
  obtain ⟨hmem, -, -, haccepts⟩ := Command.resolve?_spec hsignature
  obtain ⟨hwant, hparameters, -⟩ := Builtin.signature_of_where hc hmem
  rw [hparameters] at harguments
  obtain ⟨⟨hp, hfeed, hreturns⟩, -⟩ := harguments
  have hbool : p.returns = .bool :=
    ValueType.eq_of_assignable (hreturns .bool rfl) (fun _ h => by cases h) fun h => by cases h
  refine ⟨hp, hbool, fun items hitems v hv => ?_⟩
  cases piped with
  | none =>
    unfold Signature.accepts Signature.fit? at haccepts
    rw [hwant] at haccepts
    cases haccepts
  | some got =>
    obtain ⟨want, hsome, hassignable⟩ := Signature.accepts_some_iff.mp haccepts
    rw [hwant] at hsome
    cases hsome
    obtain ⟨u, rfl, -⟩ := ValueType.list_of_assignable hassignable
    obtain ⟨items', hlist, hall⟩ := hitems (.list u) rfl
    cases hlist
    rw [hfeed]
    intro t ht
    cases ht
    exact hall v hv

end

/-! ### The partition -/

/-- The block by itself, in a fresh session, answers the item with true. -/
def Pipeline.holds (listing : List String) (p : Pipeline) (v : Value) : Bool :=
  ((p.run listing (some v)).run { session := {} }).1.bind Value.bool? = some true

/-- In a fresh session the block answers an item with a truth value, if it has a value for the item anywhere. -/
theorem Pipeline.run_fresh_eq_holds {newlineEnds : Bool} {p : Pipeline} {v w : Value}
    (hp : p.Typed (Directory.builtinWith newlineEnds)) (hreturns : p.returns = .bool) (hfree : ¬p.Has Step.UsesContext)
    (hadmits : AdmitsPiped p.piped v) (hw : ((p.run listing (some v)).run r).1 = some w) :
    ((p.run listing (some v)).run { session := {} }).1 = some (.bool (p.holds listing v)) := by
  have hvar : p.mentions "var" = false := by
    refine (Bool.not_eq_true _).mp fun hmentions => hfree (p.has_of_mentions (fun s hs => Or.inl ?_) hmentions)
    rw [hs]
    decide
  have hfresh := p.run_fresh conducts_builtin hp hfree hw
  have hgiven : AdmitsPiped p.piped ((some v).getD .void) := hadmits
  obtain ⟨-, -, hvalue⟩ :=
    p.run_of_trusted hp (p.trusted_of_sound (soundWhere_builtin hvar) _) hgiven (Prod.ext hfresh rfl)
  have hadmitted := hvalue w rfl
  rw [hreturns] at hadmitted
  obtain ⟨answer, rfl⟩ := hadmitted
  unfold holds
  rw [hfresh]
  cases answer <;> rfl

theorem eq_of_place {items : List Value} {a b : Value × Nat} (ha : a ∈ items.zipIdx) (hb : b ∈ items.zipIdx)
    (h : a.2 = b.2) : a = b := by
  rw [List.mem_zipIdx_iff_getElem?] at ha hb
  rw [h, hb] at ha
  exact Prod.ext (Option.some.inj ha).symm h

/-- The items that pass a test and those that do not, put back in their places, are the list. -/
theorem merge_partition (items : List Value) (test : Value → Bool) :
    (items.zipIdx.filter fun e => test e.1).merge (items.zipIdx.filter fun e => !test e.1) (fun a b => a.2 ≤ b.2) =
      items.zipIdx := by
  have hordered : items.zipIdx.Pairwise fun a b => decide (a.2 ≤ b.2) = true := by
    have hplaces : (items.zipIdx.map Prod.snd).Pairwise (· < ·) := by
      rw [List.zipIdx_map_snd]
      exact List.pairwise_lt_range'
    exact (List.pairwise_map.mp hplaces).imp fun h => decide_eq_true (Nat.le_of_lt h)
  have hmerged : ((items.zipIdx.filter fun e => test e.1).merge (items.zipIdx.filter fun e => !test e.1)
      (fun a b => a.2 ≤ b.2)).Perm items.zipIdx :=
    (List.merge_perm_append _).trans (List.filter_append_perm _ _)
  refine hmerged.eq_of_pairwise (fun a b ha hb hab hba => ?_) ?_ hordered
  · exact eq_of_place (hmerged.subset ha) hb (Nat.le_antisymm (of_decide_eq_true hab) (of_decide_eq_true hba))
  · refine List.pairwise_merge (fun a b c hab hbc => ?_) (fun a b => ?_) _ _ (hordered.filter _) (hordered.filter _)
    · exact decide_eq_true (Nat.le_trans (of_decide_eq_true hab) (of_decide_eq_true hbc))
    · rw [Bool.or_eq_true, decide_eq_true_eq, decide_eq_true_eq]
      exact Nat.le_total a.2 b.2

theorem map_fst_filter_zipIdx (items : List Value) (test : Value → Bool) :
    (items.zipIdx.filter fun e => test e.1).map (·.1) = items.filter test := by
  conv_rhs => rw [← List.zipIdx_map_fst 0 items, List.filter_map]
  rfl

/-- Where and not where partition a list.  Take a `where` inside an expression of built-in commands, with a block that
uses no variable and writes no line, a list of the type piped to it, and a state in which the block by itself has a
value for every item.  This value is a truth value, and it is the one that the block has for the item wherever it has
any.  If it may run, `where` answers with the items that the block answers with true, in their order, `not where` with
the others, and the two put back in their places are the list. -/
theorem where_partitions_the_list {newlineEnds : Bool} {source : String} {piped : Option ValueType}
    {known : Ordered.NameMap ValueType} {q p : Pipeline} {s : Step} {items : List Value} {listing : List String}
    {r : Running} (hread : (Directory.builtinWith newlineEnds).read source piped known = .ok q)
    (hstep : q.Has (· = s)) (hname : s.name = "where") (hargument : s.arguments = [.block p])
    (hitems : AdmitsPiped s.piped (.list items)) (hfree : ¬p.Has Step.UsesContext)
    (hvalues : ∀ v ∈ items, ((p.run listing (some v)).run r).1.isSome) :
    (∀ v ∈ items, ((p.run listing (some v)).run { session := {} }).1 = some (.bool (p.holds listing v)) ∧
      ∀ r' w, ((p.run listing (some v)).run r').1 = some w → w = .bool (p.holds listing v)) ∧
    (({ s with inverted := false }.run listing (.list items)).run r).1 =
      (if r.grants s.span.start "where" then some (.list (items.filter (p.holds listing))) else none) ∧
    (({ s with inverted := true }.run listing (.list items)).run r).1 =
      (if r.grants s.span.start "where" then some (.list (items.filter (!p.holds listing ·))) else none) ∧
    ∃ kept others : List (Value × Nat), kept.map (·.1) = items.filter (p.holds listing) ∧
      others.map (·.1) = items.filter (!p.holds listing ·) ∧
      kept.merge others (fun a b => a.2 ≤ b.2) = items.zipIdx := by
  obtain ⟨t, rfl, hs⟩ := q.typed_of_has (Directory.read_typed hread).1 hstep
  obtain ⟨hp, hreturns, hadmits⟩ := t.block_of_where hs hname hargument
  have hanswers : ∀ v ∈ items, ∀ r' w, ((p.run listing (some v)).run r').1 = some w →
      ((p.run listing (some v)).run { session := {} }).1 = some (.bool (p.holds listing v)) ∧
        w = .bool (p.holds listing v) := by
    intro v hv r' w hw
    have hholds := p.run_fresh_eq_holds hp hreturns hfree (hadmits items hitems v hv) hw
    have hfresh := p.run_fresh conducts_builtin hp hfree hw
    exact ⟨hholds, Option.some.inj (hfresh.symm.trans hholds)⟩
  have hblock : ∀ v ∈ items, ∀ r₁, Steady r r₁ →
      ∃ r₂, (p.runNested listing (some v)).run r₁ = (some (.bool (p.holds listing v)), r₂) ∧ Steady r₁ r₂ := by
    intro v hv r₁ hsteady
    obtain ⟨w, hw⟩ := Option.isSome_iff_exists.mp (hvalues v hv)
    obtain ⟨hquiet, hnested⟩ := Pipeline.run_eq_some.mp hw
    have hdetached : Run.Detached (p.runNested listing (some v)) (·.isSome) :=
      p.detached_runNested conducts_builtin hp hfree (some v)
    obtain ⟨hsame, -, hafter⟩ := hdetached r r₁ (Below.of_steady hquiet hsteady) (by rw [hnested]; rfl)
    obtain ⟨-, rfl⟩ := hanswers v hv r w hw
    exact ⟨_, Prod.ext (hsame.trans hnested) rfl, hafter⟩
  have htyped : ∀ inverted, Step.Typed (Directory.builtinWith newlineEnds) { t with inverted } := by
    cases t
    exact fun _ => hs
  have hruns := fun inverted => Step.run_where (s := { t with inverted }) (htyped inverted) hname hargument hblock
  refine ⟨fun v hv => ?_, ?_, ?_, _, _, map_fst_filter_zipIdx items (p.holds listing),
    map_fst_filter_zipIdx items (!p.holds listing ·), merge_partition items (p.holds listing)⟩
  · obtain ⟨w, hw⟩ := Option.isSome_iff_exists.mp (hvalues v hv)
    exact ⟨(hanswers v hv r w hw).1, fun r' w' hw' => (hanswers v hv r' w' hw').2⟩
  · rw [hruns false]
    simp
  · rw [hruns true]
    simp

/-- The block that the argument is. -/
def Argument.block? : Argument → Option Pipeline
  | .block p => some p
  | _ => none

theorem Argument.block?_eq_some {a : Argument} {p : Pipeline} : a.block? = some p ↔ a = .block p := by
  cases a <;> simp [block?]

/-- The numbers whose successor is even, and the others. -/
theorem where_partitions_three_numbers :
    ∃ (q p : Pipeline) (s : Step),
      (Directory.builtinWith false).read "where { + { i 1 } | even }" (some (.list .int)) {} = .ok q ∧
      q.Has (· = s) ∧ s.name = "where" ∧ s.arguments = [.block p] ∧
      AdmitsPiped s.piped (.list [.int 1, .int 2, .int 3]) ∧ ¬p.Has Step.UsesContext ∧
      (∀ v ∈ [Value.int 1, .int 2, .int 3], ((p.run [] (some v)).run { session := {} }).1.isSome) ∧
      (({ s with inverted := false }.run [] (.list [.int 1, .int 2, .int 3])).run { session := {} }).1 =
        some (.list ([Value.int 1, .int 2, .int 3].filter (p.holds []))) ∧
      (({ s with inverted := true }.run [] (.list [.int 1, .int 2, .int 3])).run { session := {} }).1 =
        some (.list ([Value.int 1, .int 2, .int 3].filter (!p.holds [] ·))) := by
  have hchecked : ((Directory.builtinWith false).read "where { + { i 1 } | even }" (some (.list .int)) {}).toOption.any
      (fun q => q.steps.head?.any fun s => s.arguments.head?.any fun a => a.block?.any fun p =>
        decide (s.name = "where" ∧ s.piped = some (.list .int) ∧ s.arguments.length = 1 ∧ ¬p.Has Step.UsesContext) &&
          [Value.int 1, .int 2, .int 3].all fun v => ((p.run [] (some v)).run { session := {} }).1.isSome) = true := by
    decide +kernel
  cases hread : (Directory.builtinWith false).read "where { + { i 1 } | even }" (some (.list .int)) {} with
  | error fault =>
    rw [hread] at hchecked
    cases hchecked
  | ok q =>
    simp only [hread, Except.toOption, Option.any_some, Option.any_eq_true, Bool.and_eq_true, decide_eq_true_eq,
      List.all_eq_true] at hchecked
    obtain ⟨s, hs, a, ha, p, hp, ⟨hname, hpiped, hcount, hfree⟩, hvalues⟩ := hchecked
    have hargument : s.arguments = [.block p] := by
      obtain ⟨b, hb⟩ := List.length_eq_one_iff.mp hcount
      rw [hb, List.head?_singleton] at ha
      rw [hb, Option.some.inj ha, Argument.block?_eq_some.mp hp]
    have hstep : q.Has (· = s) := by
      obtain ⟨steps, source, piped, returns⟩ := q
      obtain ⟨rest, rfl⟩ := List.head?_eq_some_iff.mp hs
      cases s
      exact Or.inl (Or.inl rfl)
    have hitems : AdmitsPiped s.piped (.list [.int 1, .int 2, .int 3]) := by
      rw [hpiped]
      intro t ht
      cases ht
      exact ⟨_, rfl, by simp [ValueType.Admits]⟩
    obtain ⟨-, hkept, hothers, -⟩ := where_partitions_the_list hread hstep hname hargument hitems hfree hvalues
    have hgrants : Running.grants { session := {} } s.span.start "where" = true := by
      rw [Running.grants_eq]
      rfl
    refine ⟨q, p, s, rfl, hstep, hname, hargument, hitems, hfree, hvalues, ?_, ?_⟩
    · rw [hkept]
      exact if_pos hgrants
    · rw [hothers]
      exact if_pos hgrants

end KeyConsole.Console
