import FiniteAutomata.Datum

/-! # Options of a run

What a run may be told besides its input: which checks to relax, how many steps to take at most,
when to stop, what to keep quiet about, and the seed of its random choices. -/

namespace FiniteAutomata

/-- The options of a run. -/
structure Options where
  ignoreAlphabet : Bool := false
  maxSteps : Nat := 10000
  autoNull : Bool := false
  stopOnAccept : Bool := false
  quiet : Bool := false
  extraQuiet : Bool := false
  seed : Option Int := none
deriving DecidableEq, Repr, Inhabited

namespace Options

/-- The names of the options, in order. -/
def names : List String :=
  ["ignore_lang_check", "max_steps", "auto_null", "term_on_accept", "quiet", "extra_quiet", "seed"]

/-- The options as fields of a record, in order. -/
def toFields (o : Options) : List (String × Datum) :=
  [("ignore_lang_check", .bool o.ignoreAlphabet), ("max_steps", .int o.maxSteps),
   ("auto_null", .bool o.autoNull), ("term_on_accept", .bool o.stopOnAccept),
   ("quiet", .bool o.quiet), ("extra_quiet", .bool o.extraQuiet),
   ("seed", (o.seed.map Datum.int).getD .null)]

theorem toFields_names (o : Options) : o.toFields.map Prod.fst = names := rfl

end Options

end FiniteAutomata
