import KeyConsole.Console.Program
import KeyConsole.Proofs.Console.Conduct

/-!
# Proofs.Console.Permissions: verdicts that are looked up once

A verdict is kept with the epoch in which it was looked up, and is used again in every session whose epoch has
the same number.  It is fresh there as long as sessions with the same epoch number permit the same commands.
The sessions that one context goes through do; sessions of several contexts need not.
-/

namespace KeyConsole.Console

variable {s : Session} {d : Directory} {listing : List String}

/-- The verdicts of the session's own epoch number are what the session permits. -/
def Session.Confirms (s : Session) (verdicts : List ((Nat × String) × Verdict)) : Prop :=
  ∀ e ∈ verdicts, e.2.epoch = s.epoch → e.2.permitted = s.permits e.1.2

/-- The verdict was looked up in the session. -/
def Session.Issued (s : Session) (e : (Nat × String) × Verdict) : Prop :=
  e.2.epoch = s.epoch ∧ e.2.permitted = s.permits e.1.2

/-- What holds while a pipeline runs in a session, with some verdicts at hand: verdicts are only added, and the
commands in the journal were treated by what the session permits. -/
structure Lawful (s : Session) (before : List ((Nat × String) × Verdict)) (r : Running) : Prop where
  denied : r.session.denied = s.denied
  epoch : r.session.epoch = s.epoch
  verdicts : ∀ e ∈ r.verdicts, e ∈ before ∨ s.Issued e
  refused : ∀ site, .refused site ∈ r.journal → s.permits site.name = false
  started : ∀ site v, .started site v ∈ r.journal → s.permits site.name = true

variable {before : List ((Nat × String) × Verdict)} {r : Running}

namespace Lawful

theorem permits (h : Lawful s before r) (name : String) : r.session.permits name = s.permits name := by
  unfold Session.permits
  rw [h.denied]

theorem enter {t : Turn} (h : Lawful s before r)
    (hrefused : ∀ site, t = .refused site → s.permits site.name = false)
    (hstarted : ∀ site v, t = .started site v → s.permits site.name = true) :
    Lawful s before { r with journal := t :: r.journal } := by
  refine ⟨h.denied, h.epoch, h.verdicts, fun site hsite => ?_, fun site v hsite => ?_⟩
  · rcases List.mem_cons.mp hsite with hsite | hsite
    · exact hrefused site hsite.symm
    · exact h.refused site hsite
  · rcases List.mem_cons.mp hsite with hsite | hsite
    · exact hstarted site v hsite.symm
    · exact h.started site v hsite

theorem governs : Governs (Lawful s before) fun _ r => Lawful s before r where
  wrote r line h := by
    refine enter (r := { r with session := r.session.writeLine line }) ?_ ?_ ?_
    · exact ⟨h.denied, h.epoch, h.verdicts, h.refused, h.started⟩
    · exact fun site heq => by cases heq
    · exact fun site v heq => by cases heq
  stored r name v h := by
    refine enter (r := { r with session := r.session.setVariable name v }) ?_ ?_ ?_
    · exact ⟨h.denied, h.epoch, h.verdicts, h.refused, h.started⟩
    · exact fun site heq => by cases heq
    · exact fun site v heq => by cases heq
  fails _ _ _ h := h

theorem report (h : Lawful s before r) (f : Fault) : Lawful s before { r with session := r.session.report f } :=
  ⟨h.denied, h.epoch, h.verdicts, h.refused, h.started⟩

theorem keeps_report (f : Fault) : Run.Keeps (Lawful s before) (Run.report f) fun _ => True :=
  Run.Keeps.update fun _ h => h.report f

/-- If the verdicts at hand are confirmed, a command is permitted just if the session permits it. -/
theorem keeps_permits (hbefore : s.Confirms before) (place : Nat) (command : String) :
    Run.Keeps (Lawful s before) (Run.permits place command) fun b => b = s.permits command := by
  refine Run.leads_permits fun r h permitted verdicts hlooked => ⟨⟨h.denied, h.epoch, fun e he => ?_, h.refused,
    h.started⟩, ?_⟩
  · rcases hlooked.kept e he with he | rfl
    · exact h.verdicts e he
    · exact Or.inr ⟨h.epoch, h.permits command⟩
  · rcases hlooked.answer with hanswer | ⟨v, hv, hepoch, hanswer⟩
    · exact hanswer.trans (h.permits command)
    · have hissued : v.epoch = s.epoch := hepoch.trans h.epoch
      rcases h.verdicts _ hv with hmem | hmem
      · exact hanswer.trans (hbefore _ hmem hissued)
      · exact hanswer.trans hmem.2

theorem keeps_settle {x : Eval Value}
    (hx : x.Keeps (Lawful s before) (fun _ r => Lawful s before r) fun _ => True) :
    Run.Keeps (Lawful s before) (Run.settle x) fun _ => True := by
  refine Run.Leads.bind hx fun outcome => ?_
  have hreport : ∀ f : Fault, Run.Keeps (Lawful s before)
      (Run.report f >>= fun _ => pure (none : Option Value)) fun _ => True := fun f =>
    Run.Keeps.bind (keeps_report f) fun _ _ => Run.Keeps.pure trivial
  cases outcome with
  | ok v => exact fun r h => h
  | error f =>
    cases f with
    | reported => exact fun r h => ⟨h, trivial⟩
    | fault f => exact fun r h => hreport _ r h
    | raised message causes => exact fun r h => hreport _ r h
    | panicked message => exact fun r h => hreport _ r h

theorem keeps_checked (source fullName : String) (span : Span) (v : Option Value) :
    Run.Keeps (Lawful s before) (Run.checked source fullName span v) fun _ => True := by
  refine Run.Keeps.bind Run.Keeps.get fun r _ => ?_
  dsimp only
  split
  · exact Run.Keeps.pure trivial
  · exact Run.Keeps.bind (Run.Keeps.update fun _ h => ⟨h.denied, h.epoch, h.verdicts, h.refused, h.started⟩)
      fun _ _ => Run.Keeps.pure trivial

theorem keeps_asBlock {run : Run (Option Value)} (h : Run.Keeps (Lawful s before) run fun _ => True) :
    (Run.asBlock run).Keeps (Lawful s before) (fun _ r => Lawful s before r) fun _ => True := by
  refine Eval.Keeps.asBlock (Run.Leads.mono h fun v r hr => ?_)
  cases v with
  | none => exact hr.1
  | some w => exact hr

end Lawful

/-! ### Runs -/

/-- A command that may not run is refused by the session, and one that starts is permitted. -/
theorem Step.lawful_run (hbefore : s.Confirms before) {t : Step} {v : Value}
    (hcall : (t.signature.run (t.call listing v)).Keeps (Lawful s before) (fun _ r => Lawful s before r) fun _ => True) :
    Run.Keeps (Lawful s before) (t.run listing v) fun _ => True := by
  refine t.leads_run (Lawful.keeps_permits hbefore t.span.start t.name) (fun r hr => ⟨?_, trivial⟩) (fun r hr => ?_)
    (Run.Leads.mono (Lawful.keeps_settle hcall) fun result r hr => ⟨?_, trivial⟩)
  · obtain ⟨h, hrefused⟩ := hr
    refine Lawful.enter (r := { r with session := _ }) (h.report _) (fun site hsite => ?_) fun site w hsite => ?_
    · cases hsite
      exact hrefused.symm
    · cases hsite
  · obtain ⟨h, hpermitted⟩ := hr
    refine h.enter (fun site hsite => ?_) fun site w hsite => ?_
    · cases hsite
    · cases hsite
      exact hpermitted.symm
  · cases result <;> exact hr.1.enter (fun site hsite => by cases hsite) fun site w hsite => by cases hsite

theorem lawful_induction (hd : d.Conducts) (hbefore : s.Confirms before) :
    TypedInduction d (fun p => ∀ input, Run.Keeps (Lawful s before) (p.runNested listing input) fun _ => True)
      fun t => ∀ v, Run.Keeps (Lawful s before) (t.run listing v) fun _ => True where
  done _ _ _ _ _ := Run.Keeps.pure trivial
  next t _ source _ _ ht _ hrest _ :=
    Pipeline.leads_runNested_cons (ht _) (fun result => Run.Leads.of
      (Lawful.keeps_checked source t.fullName t.span result) fun _ hr => hr.1)
      (fun w => Run.Leads.of (hrest (some w)) fun _ hr => hr.1) fun _ hr => hr
  step _ ht hblocks v := Step.lawful_run hbefore
    (hd.keeps_call ht Lawful.governs (fun a ha p hp input => Lawful.keeps_asBlock (hblocks a ha p hp input)) v)

theorem Pipeline.lawful_run (hd : d.Conducts) (hbefore : s.Confirms before) {p : Pipeline} (hp : p.Typed d)
    (input : Option Value) : Run.Keeps (Lawful s before) (p.run listing input) fun _ => True := by
  refine p.leads_run (fun r h => ⟨h.report _, trivial⟩) ?_
  refine Run.Leads.mono (Run.Leads.of ((lawful_induction hd hbefore).pipeline p hp input) fun _ hr => hr.1)
    fun result r hr => ?_
  cases result with
  | some w => exact hr
  | none => exact ⟨⟨hr.1.denied, hr.1.epoch, hr.1.verdicts, hr.1.refused, hr.1.started⟩, trivial⟩

/-- The commands whose turn came were treated as the session permits. -/
def Session.Heeded (s : Session) (journal : List Turn) : Prop :=
  (∀ site, .refused site ∈ journal → s.permits site.name = false) ∧
    ∀ site v, .started site v ∈ journal → s.permits site.name = true

namespace Program

/-- The state after a run of the program in a session. -/
def after (listing : List String) (p : Program) (s : Session) (input : Option Value) : Running :=
  ((p.pipeline.run listing input).run { session := s, verdicts := p.verdicts }).2

/-- Running the program answers the session of the state after it, and the program with its verdicts. -/
theorem run_eq_after (p : Program) (s : Session) (input : Option Value) :
    (p.run listing input s).2
      = ((p.after listing s input).session, { p with verdicts := (p.after listing s input).verdicts }) :=
  rfl

theorem lawful_after (listing : List String) (hd : d.Conducts) {p : Program} (hp : p.pipeline.Typed d)
    (h : s.Confirms p.verdicts) (input : Option Value) : Lawful s p.verdicts (p.after listing s input) := by
  have hstart : Lawful s p.verdicts { session := s, verdicts := p.verdicts } :=
    ⟨rfl, rfl, fun e he => Or.inl he, fun site hsite => (List.not_mem_nil hsite).elim,
      fun site v hsite => (List.not_mem_nil hsite).elim⟩
  exact (p.pipeline.lawful_run hd h hp input _ hstart).1

/-! ### Runs in several sessions -/

/-- What becomes of the commands when the program runs on one occasion after the other, each in a session and on
an input of its own. -/
def turns (listing : List String) (p : Program) :
    List (Session × Option Value) → List (Session × List Turn)
  | [] => []
  | (s, input) :: rest =>
    let r := p.after listing s input
    (s, r.journal) :: turns listing { p with verdicts := r.verdicts } rest

theorem heeded_turns (hd : d.Conducts) {p : Program} (hp : p.pipeline.Typed d)
    {occasions : List (Session × Option Value)} (hconfirms : ∀ a ∈ occasions, a.1.Confirms p.verdicts)
    (hagree : ∀ a ∈ occasions, ∀ b ∈ occasions, a.1.epoch = b.1.epoch →
      ∀ name, a.1.permits name = b.1.permits name) :
    ∀ t ∈ p.turns listing occasions, t.1.Heeded t.2 := by
  induction occasions generalizing p with
  | nil => exact fun t ht => by cases ht
  | cons occasion rest ih =>
    obtain ⟨s, input⟩ := occasion
    obtain ⟨hs, hrest⟩ := List.forall_mem_cons.mp hconfirms
    have hlawful := lawful_after listing hd hp hs input
    refine List.forall_mem_cons.mpr ⟨⟨hlawful.refused, hlawful.started⟩, ih hp (fun a ha e he hepoch => ?_)
      fun a ha b hb => hagree a (List.mem_cons_of_mem _ ha) b (List.mem_cons_of_mem _ hb)⟩
    rcases hlawful.verdicts e he with hold | hnew
    · exact hrest a ha e hold hepoch
    · have hsame : s.epoch = a.1.epoch := hnew.1.symm.trans hepoch
      rw [hnew.2]
      exact hagree (s, input) List.mem_cons_self a (List.mem_cons_of_mem _ ha) hsame e.1.2

end Program

/-- Permissions are never stale among sessions that agree.  Whatever the built-in commands of a pipeline, on
whatever occasions it runs: if two of the sessions with the same epoch number permit the same commands, every
command that is reached runs or is refused as the session that it runs in permits. -/
theorem agreeing_sessions_are_heeded {newlineEnds : Bool} {source : String} {piped : Option ValueType}
    {known : Ordered.NameMap ValueType} {p : Pipeline} {listing : List String}
    {occasions : List (Session × Option Value)}
    (hread : (Directory.builtinWith newlineEnds).read source piped known = .ok p)
    (hagree : ∀ a ∈ occasions, ∀ b ∈ occasions, a.1.epoch = b.1.epoch →
      ∀ name, a.1.permits name = b.1.permits name) :
    ∀ t ∈ Program.turns listing { pipeline := p } occasions, t.1.Heeded t.2 :=
  Program.heeded_turns conducts_builtin (Directory.read_typed hread).1 (fun _ _ e he => by cases he) hagree

/-- A command starts that the session does not permit. -/
def Turn.isUnheeded (s : Session) : Turn → Bool
  | .started site _ => !s.permits site.name
  | _ => false

/-- Two sessions that each have denied one command have the same epoch number.  What was looked up in the one
lets the other run the command that it denies. -/
theorem stale_verdict_of_other_session :
    ∃ p site v, (Directory.builtinWith false).read "i 1" none {} = .ok p ∧
      ∃ t ∈ Program.turns [] { pipeline := p } [(Session.deny "f" {}, none), (Session.deny "i" {}, none)],
        .started site v ∈ t.2 ∧ t.1.permits site.name = false := by
  have hchecked : ((Directory.builtinWith false).read "i 1" none {}).toOption.any (fun p =>
      (Program.turns [] { pipeline := p } [(Session.deny "f" {}, none), (Session.deny "i" {}, none)]).any fun t =>
        t.2.any (Turn.isUnheeded t.1)) = true := by decide +kernel
  obtain ⟨p, hread, hturns⟩ := exists_ok_of_any hchecked
  obtain ⟨t, ht, hjournal⟩ := List.any_eq_true.mp hturns
  obtain ⟨turn, hturn, hstale⟩ := List.any_eq_true.mp hjournal
  cases turn with
  | started site v => exact ⟨p, site, v, hread, t, ht, hturn, (Bool.not_eq_true' _).mp hstale⟩
  | _ => cases hstale

/-! ### Runs in the life of one session -/

/-- What is done with a program and the session it runs in. -/
inductive Deed where
  | deny (command : String)
  | allow (command : String)
  | clear
  | run (input : Option Value)

/-- Do one deed after the other.  Answers what becomes of the commands each time that the program runs, with the
session at this time. -/
def Program.life (listing : List String) (p : Program) (s : Session) : List Deed → List (Session × List Turn)
  | [] => []
  | .deny command :: rest => life listing p (s.deny command) rest
  | .allow command :: rest => life listing p (s.allow command) rest
  | .clear :: rest => life listing p s.clearFaults rest
  | .run input :: rest =>
    let r := p.after listing s input
    (s, r.journal) :: life listing { p with verdicts := r.verdicts } r.session rest

/-- No verdict is from a later epoch, and those of this epoch are what the session permits. -/
def Session.Outdates (s : Session) (verdicts : List ((Nat × String) × Verdict)) : Prop :=
  (∀ e ∈ verdicts, e.2.epoch ≤ s.epoch) ∧ s.Confirms verdicts

/-- A session that changes what it permits begins an epoch in which nothing was looked up yet. -/
theorem Session.Outdates.changed {verdicts : List ((Nat × String) × Verdict)} {t : Session}
    (h : s.Outdates verdicts) (ht : (t.denied = s.denied ∧ t.epoch = s.epoch) ∨ t.epoch = s.epoch + 1) :
    t.Outdates verdicts := by
  rcases ht with ⟨hdenied, hepoch⟩ | hepoch
  · refine ⟨fun e he => hepoch ▸ h.1 e he, fun e he hissued => ?_⟩
    unfold Session.permits
    rw [hdenied]
    exact h.2 e he (hissued.trans hepoch)
  · refine ⟨fun e he => ?_, fun e he hissued => ?_⟩
    · have hle := h.1 e he
      omega
    · have hle := h.1 e he
      omega

theorem Session.Outdates.deny {verdicts : List ((Nat × String) × Verdict)} (h : s.Outdates verdicts)
    (command : String) : (s.deny command).Outdates verdicts := by
  refine h.changed ?_
  unfold Session.deny
  split
  · exact Or.inl ⟨rfl, rfl⟩
  · exact Or.inr rfl

theorem Session.Outdates.allow {verdicts : List ((Nat × String) × Verdict)} (h : s.Outdates verdicts)
    (command : String) : (s.allow command).Outdates verdicts := by
  refine h.changed ?_
  unfold Session.allow
  split
  · exact Or.inr rfl
  · exact Or.inl ⟨rfl, rfl⟩

theorem Session.Outdates.after (hd : d.Conducts) {p : Program} (hp : p.pipeline.Typed d)
    (h : s.Outdates p.verdicts) (input : Option Value) :
    (p.after listing s input).session.Outdates (p.after listing s input).verdicts := by
  have hlawful := Program.lawful_after listing hd hp h.2 input
  refine Session.Outdates.changed (s := s) ⟨fun e he => ?_, fun e he hissued => ?_⟩
    (Or.inl ⟨hlawful.denied, hlawful.epoch⟩)
  · rcases hlawful.verdicts e he with hold | hnew
    · exact h.1 e hold
    · exact Nat.le_of_eq hnew.1
  · rcases hlawful.verdicts e he with hold | hnew
    · exact h.2 e hold hissued
    · exact hnew.2

theorem Program.heeded_life (hd : d.Conducts) {p : Program} (hp : p.pipeline.Typed d)
    (h : s.Outdates p.verdicts) (deeds : List Deed) : ∀ t ∈ p.life listing s deeds, t.1.Heeded t.2 := by
  induction deeds generalizing p s with
  | nil => exact fun t ht => by cases ht
  | cons deed rest ih =>
    cases deed with
    | deny command => exact ih hp (h.deny command)
    | allow command => exact ih hp (h.allow command)
    | clear => exact ih hp (h.changed (Or.inl ⟨rfl, rfl⟩))
    | run input =>
      have hlawful := lawful_after listing hd hp h.2 input
      exact List.forall_mem_cons.mpr ⟨⟨hlawful.refused, hlawful.started⟩, ih hp (h.after hd hp input)⟩

/-- Permissions are never stale within one session, however often and in whatever order commands are denied,
allowed and run. -/
theorem one_session_is_heeded {newlineEnds : Bool} {source : String} {piped : Option ValueType}
    {known : Ordered.NameMap ValueType} {p : Pipeline} {listing : List String}
    (hread : (Directory.builtinWith newlineEnds).read source piped known = .ok p)
    (s : Session) (deeds : List Deed) :
    ∀ t ∈ Program.life listing { pipeline := p } s deeds, t.1.Heeded t.2 :=
  Program.heeded_life conducts_builtin (Directory.read_typed hread).1
    ⟨fun _ he => (List.not_mem_nil he).elim, fun _ he => (List.not_mem_nil he).elim⟩ deeds

end KeyConsole.Console
