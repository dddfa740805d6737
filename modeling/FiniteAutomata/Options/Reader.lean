import FiniteAutomata.Dict
import FiniteAutomata.Options.Basic
import FiniteAutomata.Options.Lenient

/-! # Options from fields

Options are read from named fields; a field that is absent takes its default and one that is not
known is refused. Extra quiet implies quiet. Options may be overridden by further fields. -/

namespace FiniteAutomata.Options

open Checked

/-- The fields with `quiet` set if `extra_quiet` counts as true. -/
def implyQuiet (fields : List (String × Datum)) : List (String × Datum) :=
  if ((Entries.find? "extra_quiet" fields).getD .null).isTruthy then
    Entries.put "quiet" (.bool true) fields
  else fields

/-- Refuses fields that name no option. -/
def onlyKnown (fields : List (String × Datum)) : Checked Unit :=
  match (fields.map Prod.fst).filter (· ∉ names) with
  | [] => .ok ()
  | unknown => .error (unknown.map fun name => ⟨[.field name], .unexpectedField⟩)

/-- The options that fields stand for. -/
def ofFields (given : List (String × Datum)) : Checked Options :=
  let fields := implyQuiet given
  let flag (name : String) := fieldOr (.ok false) name lenientBool fields
  let make : Checked (Bool → Nat → Bool → Bool → Bool → Bool → Option Int → Unit → Options) :=
    .ok fun ignoreAlphabet maxSteps autoNull stopOnAccept quiet extraQuiet seed _ =>
      { ignoreAlphabet, maxSteps, autoNull, stopOnAccept, quiet, extraQuiet, seed }
  make
    |>.ap (flag "ignore_lang_check")
    |>.ap (fieldOr (.ok 10000) "max_steps" lenientPositive fields)
    |>.ap (flag "auto_null")
    |>.ap (flag "term_on_accept")
    |>.ap (flag "quiet")
    |>.ap (flag "extra_quiet")
    |>.ap (fieldOr (.ok none) "seed" lenientInt? fields)
    |>.ap (onlyKnown fields)

/-- The options with fields put over theirs; a field that holds nothing overrides nothing. -/
def merged (o : Options) (overrides : List (String × Datum)) : Checked Options :=
  ofFields (overrides.foldl
    (fun fields e => match e.2 with | .null => fields | d => Entries.put e.1 d fields) o.toFields)

end FiniteAutomata.Options
