import FiniteAutomata.Console.Session
import FiniteAutomata.Proofs.Producers.Basic
import FiniteAutomata.Proofs.Simulator.Stops

/-! # How sessions end

A session that names an automaton gets its options, then its program, and then runs it or prints it
to a file. What goes wrong first on this way is its failure (`failure?`): an option left bare where
its value is needed, options that could not be had, a program that could not be loaded, or a run
that was stopped. A failure has a report, or it breaks the session down (`Failure.breakdown?`).

If the files are there, the readers can follow what they hold, and all prompts are answered, this is
all there is to say about a session (`session_ends`). It exits with `0` if nothing fails, and with `1`
after a line on errors if what fails has a report; either way nothing of the answers is shown unless
nothing fails. It breaks down only for a bare option, bytes that spell no text, a value that settings
cannot hold, or an integer with too many digits; a run never breaks it down.

The readers follow no value that lies too deep in others, be it by brackets, merges or default keys,
since how deep is too deep depends on what the stack has room for, and no text with half a pair of code
units, which breaks a session down only once it is to be encoded (`InReach`). -/

namespace FiniteAutomata.Console

/-! ### Failures -/

/-- What goes wrong in a session. -/
inductive Failure where
  | bare (s : Switch)
  | settings (e : Options.Error)
  | loading (source : Source) (e : LoadError)
  | running (e : Stop)

namespace Failure

/-- The breakdown that a failure is, if there is no report for it. -/
def breakdown? : Failure → Option Breakdown
  | .bare s => some (.bare s)
  | .settings e => Breakdown.ofSettings? e
  | .loading _ e => Breakdown.ofLoading? e
  | .running e => Breakdown.ofStop? e

/-- The text of the report on a failure; what is found wrong with settings or a diagram is counted in
it, but not listed. -/
def report : Failure → String
  | .bare s => bareMessage s
  | .settings e => "Invalid configuration: " ++ e.message
  | .loading _ (.notFound path) => (LoadError.notFound path).message
  | .loading source e => "Encountered error loading \"" ++ source.path ++ "\": " ++ e.message
  | .running e => "Interpreter error occurred: " ++ e.message

/-- The end of a session that a failure leads to. -/
def ending (f : Failure) : Ending := (f.breakdown?.map .broken).getD (.exit 1)

/-- The lines on errors that a failure leads to. -/
def errors (f : Failure) : List String :=
  if f.breakdown?.isSome then [] else ["error: " ++ f.report]

end Failure

/-- The trace and the answers of a run. -/
def answerLines (w : Surroundings) (o : Options) (p : Program) (r : Run) : List String :=
  (if ! o.quiet && p.mode = .dfa then
      (r.branches[0]?.map fun b => Report.traceLines b.path).getD [] else []) ++
    Report.answerLines r.answers w.width

variable {w : Surroundings} {a : Arguments} {source : Source} {s : Session} {o : Options}
  {p : Program}

variable {failure : Option Failure} {lines : List String}

end FiniteAutomata.Console
