import KeyConsole.Proofs.Console.FailedRuns

/-!
# Proofs.Console.FaultPlaces: every fault can be shown in its source

A fault of an expression, whether it is found while the expression is read or while it runs, points into the source:
its span begins at a character or at the end, so the marks that underline it stand below whole characters.  While
built-in commands run, a fault gets the span of a step, and this begins where the step was read.
-/

namespace KeyConsole.Console

open Text (size)

variable {source : String} {f : Fault} {d : Directory}

/-! ### Faults in their source -/

/-- A fault that points into a source is shown by the source with some marks under it.  They begin below the first
character of the span. -/
theorem Fault.PointsInto.rendered_eq (h : f.PointsInto source) :
    ∃ before behind span width, source.toList = before ++ behind ∧ f.span = some span ∧ span.start = size before ∧
      0 < width ∧
      f.rendered = f.message ++
        ("\n" ++ source ++ "\n" ++ String.ofList (List.replicate before.length ' ' ++ List.replicate width '^')) ++
          f.trace.elim "" ("\n" ++ ·) := by
  obtain ⟨span, hspan, hfits⟩ := h.place
  obtain ⟨⟨before, behind⟩, hsplit⟩ := Option.isSome_iff_exists.mp hfits.boundary
  obtain ⟨hsource, hsize⟩ := Text.splitAt?_eq_some hsplit
  have hstart : min span.start (size source.toList) = span.start := Nat.min_eq_left hfits.inside
  obtain ⟨width, hwidth⟩ : ∃ width, width = max 1
      ((Text.slice? span.start (min span.stop (size source.toList)) source.toList).elim 0 List.length) := ⟨_, rfl⟩
  have hunderlined : Fault.underlined source span
      = "\n" ++ source ++ "\n" ++ String.ofList (List.replicate before.length ' ' ++ List.replicate width '^') := by
    unfold Fault.underlined
    dsimp only
    rw [hstart, hsplit, hwidth]
    rfl
  refine ⟨before, behind, span, width, hsource, hspan, hsize.symm, ?_, ?_⟩
  · rw [hwidth]
    exact Nat.le_max_left 1 _
  · unfold Fault.rendered
    rw [h.whole, hspan]
    dsimp only
    rw [hunderlined]

/-! ### Expressions -/

open Reading

/-- A reading from a fresh cursor fails just if it leaves a fault, and this points into the source. -/
theorem Reading.Explaining.fresh {α : Type} {x : Reading α} (h : Explaining x) {c : Cursor} (hc : c.InSource)
    (hfault : c.fault = none) :
    ((x.run.run c).1 = none ↔ (x.run.run c).2.fault.isSome) ∧
      ∀ f, (x.run.run c).2.fault = some f → f.PointsInto c.source := by
  cases hend : (x.run.run c).1 with
  | none =>
    obtain ⟨f, hf, hpoints⟩ := (h c hc).blamed hfault hend
    refine ⟨⟨fun _ => by rw [hf]; rfl, fun _ => rfl⟩, fun g hg => ?_⟩
    obtain rfl := Option.some.inj (hf.symm.trans hg)
    exact hpoints
  | some a =>
    have hclean := (h c hc).clean hfault a hend
    refine ⟨⟨fun hnone => (by cases hnone), fun hsome => ?_⟩, fun g hg => ?_⟩
    · rw [hclean] at hsome
      cases hsome
    · rw [hclean] at hg
      cases hg

/-- An expression that cannot be read has the fault for which its reading stopped. -/
theorem Directory.fault_of_read {piped : Option ValueType} {known : Ordered.NameMap ValueType} {f : Fault}
    (h : d.read source piped known = .error f) :
    ((whole d piped).run.run (d.cursor source known)).2.fault = some f ∧ f.PointsInto source := by
  have hblocks : whole d piped = blocks d (false, piped, none) := rfl
  have hfresh := (explaining_blocks d (false, piped, none)).fresh (Cursor.inSource_cursor d source known) rfl
  rw [← hblocks] at hfresh
  unfold Directory.read at h
  split at h
  · cases h
  · rename_i e hend
    rw [hend] at hfresh ⊢
    obtain ⟨g, hg⟩ := Option.isSome_iff_exists.mp (hfresh.1.mp rfl)
    rw [hg] at h
    obtain rfl := Except.error.inj h
    exact ⟨hg, hfresh.2 g hg⟩

/-- The faults that evaluating an expression leaves in a session without faults point into the expression. -/
theorem Directory.placed_evaluate (hd : d.Conducts) {input : Option Value} {s : Session} (hs : s.faults = []) :
    ∀ f ∈ (d.evaluate source input s).2.faults, f.PointsInto source := by
  unfold Directory.evaluate
  cases hread : d.read source (input.map Value.type) s.variableTypes with
  | error f =>
    have hfaults : ((s.writeLine f.rendered).report f).faults = [f] := by
      show s.faults ++ [f] = [f]
      rw [hs, List.nil_append]
    dsimp only
    rw [hfaults]
    exact List.forall_mem_singleton.mpr (Directory.fault_of_read hread).2
  | ok p =>
    cases hrun : (p.run d.listing input).run { session := s, verdicts := [] } with
    | mk v r =>
      have hend := Pipeline.run_smooth hd (Directory.read_typed hread).1 (Directory.read_from hread)
        (Directory.within_of_read hread) hs hrun
      simp only [Program.run, hrun]
      obtain ⟨-, hsmooth⟩ | ⟨-, r', ⟨fault, site, last, inner, before, h⟩, rfl⟩ := hend
      · rw [hsmooth.faults]
        exact fun f hf => (List.not_mem_nil hf).elim
      · rw [h.faults]
        exact List.forall_mem_singleton.mpr ⟨h.source, site.span, h.span, h.fits⟩

/-- Failures are explained, and every fault can be shown.  Whatever the commands, the source, the type that is piped,
the type that is asked for, the variables that are known, and whether newlines end commands and requests are kept:
the reading of the whole source yields nothing just if it leaves a fault.  The fault names the whole source, and its
span is in order and begins at a character or at the end.  So an expression that cannot be read always has the fault
of its reading.  The same holds of every fault that is left when an expression of built-in commands is evaluated in a
session without faults, and faults like these are shown by marks below the source that begin at a whole character. -/
theorem failures_are_explained :
    (∀ (d : Directory) (source : String) (piped target : Option ValueType) (newlineEnds completing : Bool)
      (known : Ordered.NameMap ValueType),
      let outcome := (blocks d (false, piped, target)).run.run
        { Cursor.ofSource source with newlineEnds, completing, known }
      (outcome.1 = none ↔ outcome.2.fault.isSome) ∧ ∀ f, outcome.2.fault = some f → f.PointsInto source) ∧
    (∀ (d : Directory) (source : String) (piped : Option ValueType) (known : Ordered.NameMap ValueType) (f : Fault),
      d.read source piped known = .error f →
        ((whole d piped).run.run (d.cursor source known)).2.fault = some f ∧ f.PointsInto source) ∧
    (∀ (newlineEnds : Bool) (source : String) (input : Option Value) (s : Session), s.faults = [] →
      ∀ f ∈ ((Directory.builtinWith newlineEnds).evaluate source input s).2.faults, f.PointsInto source) ∧
    ∀ (source : String) (f : Fault), f.PointsInto source →
      ∃ before behind span width, source.toList = before ++ behind ∧ f.span = some span ∧ span.start = size before ∧
        0 < width ∧
        f.rendered = f.message ++
          ("\n" ++ source ++ "\n" ++ String.ofList (List.replicate before.length ' ' ++ List.replicate width '^')) ++
            f.trace.elim "" ("\n" ++ ·) := by
  refine ⟨fun d source piped target newlineEnds completing known => ?_, fun d source piped known f h => ?_,
    fun newlineEnds source input s hs => ?_, fun source f h => h.rendered_eq⟩
  · have hstart : Cursor.InSource { Cursor.ofSource source with newlineEnds, completing, known } :=
      Cursor.inSource_cursor d source known
    exact (explaining_blocks d (false, piped, target)).fresh hstart rfl
  · exact Directory.fault_of_read h
  · exact Directory.placed_evaluate conducts_builtin hs

/-- A division by zero behind a character of two bytes. -/
theorem fault_behind_wide_character :
    ∃ f, ((Directory.builtinWith false).evaluate "echo é; i 1 | / 0" none {}).2.faults = [f] ∧
      f.span = some ⟨15, 18⟩ ∧ f.PointsInto "echo é; i 1 | / 0" := by
  have hchecked : (((Directory.builtinWith false).evaluate "echo é; i 1 | / 0" none {}).2.faults.map Fault.span)
      = [some ⟨15, 18⟩] := by decide +kernel
  obtain ⟨f, hf, hspan⟩ := List.map_eq_singleton_iff.mp hchecked
  obtain ⟨-, -, hevaluated, -⟩ := failures_are_explained
  exact ⟨f, hf, hspan, hevaluated false "echo é; i 1 | / 0" none {} rfl f (hf ▸ List.mem_singleton_self f)⟩

end KeyConsole.Console
