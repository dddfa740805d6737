import FiniteAutomata.Console.Arguments
import FiniteAutomata.Loading
import FiniteAutomata.Options.File
import FiniteAutomata.Simulator.Basic

/-! # Endings of sessions

A session ends with an exit code, after a report if something was wrong, or it breaks down: what it
meets then is nothing that it has a report for. -/

namespace FiniteAutomata.Console

/-- What breaks a session down: a file that spells no text, a path that cannot be used, a value that
settings cannot hold, a limit of a reader, a stop of a run, or an option left bare. Settings meet their
limits as values that they cannot hold: what lies too deep, and half a pair of code units. A text with
such a half is read, but cannot be encoded when it is to be shown or written; here it breaks a session
down as soon as it is met. -/
inductive Breakdown where
  | undecodable (e : Text.Utf8Error)
  | badPath (e : Files.Fault)
  | noValue (e : Yaml.Fault)
  | beyond (limit : Json.Limit)
  | stopped (e : Stop)
  | bare (s : Switch)
deriving DecidableEq, Repr

/-- The text on an option left bare where its value is needed. -/
def bareMessage : Switch → String
  | .string => "'list' object has no attribute 'split'"
  | .logLevel => "'list' object has no attribute 'upper'"
  | .startState => "unhashable type: 'list'"
  | _ => "expected str, bytes or os.PathLike object, not list"

/-- The text on a breakdown. -/
def Breakdown.message : Breakdown → String
  | .undecodable e => e.message
  | .badPath e => e.message
  | .noValue e => e.message
  | .beyond limit => limit.message
  | .stopped e => e.message
  | .bare s => bareMessage s

/-- How a session ends. -/
inductive Ending where
  | exit (code : Nat)
  | broken (b : Breakdown)
deriving DecidableEq, Repr

/-- The breakdown that an error of the settings is, if there is no report for it. -/
def Breakdown.ofSettings? : Options.Error → Option Breakdown
  | .unreadable e => some (.badPath e)
  | .undecodable e => some (.undecodable e)
  | .noValue e => some (.noValue e)
  | _ => none

/-- The breakdown that an error of loading is, if there is no report for it. -/
def Breakdown.ofLoading? : LoadError → Option Breakdown
  | .unreadable e => some (.badPath e)
  | .undecodable e => some (.undecodable e)
  | .beyond limit => some (.beyond limit)
  | _ => none

/-- The breakdown that a stop of a run is, if there is no report for it. -/
def Breakdown.ofStop? : Stop → Option Breakdown
  | .inputEnded => some (.stopped .inputEnded)
  | .emptyChoice => some (.stopped .emptyChoice)
  | _ => none

end FiniteAutomata.Console
