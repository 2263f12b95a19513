import KeyConsole.Console.Pipeline.Reading

/-!
# Console.Program: expressions that run more than once

A program is a pipeline together with the permissions looked up while it ran.  It can run in any session,
as often as wanted.
-/

namespace KeyConsole.Console

/-- A pipeline with the permissions looked up so far. -/
structure Program where
  pipeline : Pipeline
  verdicts : List ((Nat × String) × Verdict) := []

namespace Program

/-- Run the program in a session. -/
def run (p : Program) (listing : List String) (input : Option Value) (s : Session) :
    Option Value × Session × Program :=
  let (v, r) := (p.pipeline.run listing input).run { session := s, verdicts := p.verdicts }
  (v, r.session, { p with verdicts := r.verdicts })

end Program

/-- Read an expression and run it in a session; a fault in it is written out and kept. -/
def Directory.evaluate (d : Directory) (source : String) (input : Option Value) (s : Session) :
    Option Value × Session :=
  match d.read source (input.map Value.type) s.variableTypes with
  | .error f => (none, (s.writeLine f.rendered).report f)
  | .ok p =>
    let (v, s, _) := Program.run { pipeline := p } d.listing input s
    (v, s)

end KeyConsole.Console
