import FiniteAutomata.Proofs.Producers.WellFormed
import FiniteAutomata.Proofs.Simulator.Course
import FiniteAutomata.Proofs.Traces.Exploration
import FiniteAutomata.Proofs.Traces.Word

/-! # Exploration and runs on words give the same answers

An exploration finds the words that lead to acceptance, a run on a word is told one. Where the
tokens of a program are what their spellings stand for, the word of a path is what is tried along
it, and so the free moves reach a trace to a name exactly if the moves along the word of its path do
(`reached_free_iff`). Both runs give each answer once, as no trace comes twice among their branches
(`run_none_levels`, `run_levels`). So a path belongs to an answer of an exploration exactly if it
belongs to one of the run on its word (`answers_correspond`). -/

namespace FiniteAutomata

variable {p : Program} {word : List Token}

/-- The word that the tokens of a path spell. -/
def wordOf (path : List Event) : List Token := tokensOfLexemes (path.map fun e => e.token.lexeme)

@[simp] theorem length_wordOf (path : List Event) : (wordOf path).length = path.length := by
  simp [wordOf, tokensOfLexemes]

theorem wordOf_append (path path' : List Event) :
    wordOf (path ++ path') = wordOf path ++ wordOf path' := by
  simp [wordOf, tokensOfLexemes]

/-- The tokens of a program are what their spellings stand for: none is a name spelled like a
sentinel. -/
def Program.SpelledTokens (p : Program) : Prop :=
  ∀ s ∈ p.states.entries, ∀ t ∈ s.2.entries, t.1.IsSpelled

/-! ### Free moves and moves along a word -/

theorem Program.SpelledTokens.of_table (hp : p.SpelledTokens) {state : Ref}
    {e : Token × Destinations} (he : e ∈ (p.table state).entries) : e.1.IsSpelled := by
  cases state with
  | sentinel x => cases he
  | named state =>
    cases ht : p.states.find? state with
    | none =>
      rw [Program.table, ht] at he
      cases he
    | some table =>
      rw [Program.table, ht] at he
      exact hp _ (Dict.find?_eq_some_iff.mp ht) e he

/-- A token that is declared for a state leads to its declared destinations, and `null` to `null`
where none is: what the moves from a state are. -/
theorem mem_movesFrom {state : Ref} {move : Token × Ref} : move ∈ p.movesFrom state ↔
    (∃ d, (p.table state).find? move.1 = some d ∧ move.2 ∈ d.keys) ∨
      (p.table state).entries = [] ∧ move = (.null, .null) := by
  unfold Program.movesFrom
  split
  · next hnil => simp [Dict.find?, Entries.find?, hnil]
  · next hne =>
    simp only [List.mem_flatMap, List.mem_map]
    constructor
    · rintro ⟨e, he, destination, hd, rfl⟩
      exact Or.inl ⟨e.2, Dict.find?_eq_some_iff.mpr he, hd⟩
    · rintro (⟨d, hd, hmove⟩ | ⟨hnil, -⟩)
      · exact ⟨(move.1, d), Dict.find?_eq_some_iff.mp hd, move.2, hmove, rfl⟩
      · exact absurd hnil hne

/-- What is free to try at a state leads there on its token. -/
theorem mem_destinationsOn_of_mem_movesFrom {state : Ref} {move : Token × Ref}
    (h : move ∈ p.movesFrom state) : move.2 ∈ p.destinationsOn state move.1 := by
  unfold Program.destinationsOn
  rcases mem_movesFrom.mp h with ⟨d, hd, hmove⟩ | ⟨hnil, rfl⟩
  · rw [hd]
    exact hmove
  · simp [Dict.find?, Entries.find?, hnil]

/-- A token that leads to a name is free to try. -/
theorem mem_movesFrom_of_mem_destinationsOn {state destination : Ref} {token : Token}
    (h : destination ∈ p.destinationsOn state token) (hname : destination.isSentinel = false) :
    (token, destination) ∈ p.movesFrom state := by
  unfold Program.destinationsOn at h
  split at h
  · obtain rfl := List.mem_singleton.mp h
    cases hname
  · next d hd => exact mem_movesFrom.mpr (Or.inl ⟨d, hd, h⟩)

theorem isSpelled_of_mem_movesFrom (hp : p.SpelledTokens) {state : Ref} {move : Token × Ref}
    (h : move ∈ p.movesFrom state) : move.1.IsSpelled := by
  rcases mem_movesFrom.mp h with ⟨d, hd, -⟩ | ⟨-, rfl⟩
  · exact hp.of_table (Dict.find?_eq_some_iff.mp hd)
  · exact Ref.ofLexeme_sentinel .null

/-- A trace that the free moves reach is reached along every word that starts with the word of its
path. -/
theorem reached_along_of_free (hp : p.SpelledTokens) {t : Trace} (h : t.Reached p p.freeMoves) :
    ∀ {rest : List Token}, wordOf t.path ++ rest = word → t.Reached p (p.movesAlong word) := by
  induction h with
  | root => exact fun _ => .root
  | @extend t move _ hm ih =>
    intro rest hword
    rw [Program.freeMoves] at hm
    split_ifs at hm with hs
    · cases hm
    · rw [Trace.extend, wordOf_append, List.append_assoc] at hword
      have htoken : wordOf [⟨t.state, move.1, move.2⟩] = [move.1] :=
        congrArg (fun token => [token]) (isSpelled_of_mem_movesFrom hp hm)
      rw [htoken] at hword
      refine .extend (ih hword) (mem_movesAlong.mpr ⟨by simpa using hs, ?_, ?_⟩)
      · rw [← hword, List.getElem?_append_right (by simp)]
        simp
      · exact mem_destinationsOn_of_mem_movesFrom hm

/-- A trace to a name that is reached along a word is reached by the free moves: what is not
declared leads to `null`, from where no move goes on. -/
theorem reached_free_of_along {t : Trace} (h : t.Reached p (p.movesAlong word))
    (hname : t.state.isSentinel = false) : t.Reached p p.freeMoves := by
  induction h with
  | root => exact .root
  | @extend t move _ hm ih =>
    obtain ⟨hs, -, hd⟩ := mem_movesAlong.mp hm
    refine .extend (ih hs) ?_
    rw [Program.freeMoves, if_neg (by simp [hs])]
    exact mem_movesFrom_of_mem_destinationsOn hd hname

/-- **Exploration and the run on its word reach the same traces to a name.** -/
theorem reached_free_iff (hp : p.SpelledTokens) {t : Trace} (hname : t.state.isSentinel = false) :
    t.Reached p p.freeMoves ↔ t.Reached p (p.movesAlong (wordOf t.path)) :=
  ⟨fun h => reached_along_of_free hp h (List.append_nil _), fun h => reached_free_of_along h hname⟩

/-! ### The answers of traces -/

/-- The answer of a trace that is accepted. -/
def Trace.answer (t : Trace) : Answer := ⟨t.state, t.path⟩

theorem answersOf_ended (ts : List Trace) (accepted : Trace → Bool) :
    answersOf (ts.map fun t => t.ended (accepted t)) = (ts.filter accepted).map Trace.answer := by
  rw [answersOf, List.filter_map, List.map_map]
  refine List.map_congr_left fun t _ => ?_
  change Answer.mk t.state (t.ended _).path = _
  rw [Trace.path_ended, Trace.answer]

/-- Where no value of `f` comes twice, only one item has the value that an item has. -/
theorem filter_eq_singleton {α β : Type} [DecidableEq β] {f : α → β} {items : List α}
    (hnodup : (items.map f).Nodup) {a : α} (ha : a ∈ items) :
    (items.filter fun b => f b = f a) = [a] := by
  induction items with
  | nil => cases ha
  | cons c rest ih =>
    rw [List.map_cons, List.nodup_cons] at hnodup
    rcases List.mem_cons.mp ha with rfl | ha
    · rw [List.filter_cons_of_pos (by simp), List.filter_eq_nil_iff.mpr]
      intro b hb hba
      exact hnodup.1 (List.mem_map.mpr ⟨b, hb, of_decide_eq_true hba⟩)
    · rw [List.filter_cons_of_neg, ih hnodup.2 ha]
      intro hca
      exact hnodup.1 (List.mem_map.mpr ⟨a, ha, (of_decide_eq_true hca).symm⟩)

/-- Where no path comes twice among traces, a path is that of one answer of theirs. -/
theorem filter_answers {ts : List Trace} (hnodup : (ts.map Trace.path).Nodup)
    {accepted : Trace → Bool} {a : Answer} (ha : a ∈ (ts.filter accepted).map Trace.answer) :
    ((ts.filter accepted).map Trace.answer).filter (fun b => b.path = a.path) = [a] := by
  refine filter_eq_singleton ?_ ha
  rw [List.map_map]
  exact hnodup.sublist (List.filter_sublist.map _)

namespace Simulator

variable {s : Simulator}

/-! ### Explorations that end -/

/-- A course of an exploration that ends normally goes on to the level where the path tree ends. -/
theorem Course.levels {before frontier : Array Branch} {m : Meter} {run : Run}
    (hm : s.program.mode = .nfa) (ha : s.options.stopOnAccept = false)
    (h : s.Course none before frontier m run) (hstop : run.stop = none) {k : ℕ}
    (hlevel : s.AtLevel s.program.freeMoves (fun t => s.program.accepts t.state) k before
      frontier) :
    ∃ depth, Trace.level s.program s.program.freeMoves depth = [] ∧
      run.branches.toList = (Trace.levels s.program s.program.freeMoves depth).map
        fun t => t.ended (s.program.accepts t.state) := by
  generalize hi : (none : Option (List Token)) = input at h
  induction h generalizing k with
  | settled => cases hi
  | ended before m =>
    refine ⟨k, ?_, hlevel.done⟩
    exact List.map_eq_nil_iff.mp hlevel.pending.symm
  | stopped => cases hstop
  | next hn hr hs _ ih =>
    subst hi
    cases hn
    exact ih hstop (hlevel.next hm ha (fun t _ => visited_every t) (fun t _ => offspring_every t)
      hr hs).1 rfl

/-- The branches of an exploration that ends normally are the traces that the free moves reach. -/
theorem run_none_levels (hm : s.program.mode = .nfa) (ha : s.options.stopOnAccept = false)
    (hstop : (s.run none).stop = none) :
    ∃ depth, Trace.level s.program s.program.freeMoves depth = [] ∧
      (s.run none).branches.toList = (Trace.levels s.program s.program.freeMoves depth).map
        fun t => t.ended (s.program.accepts t.state) :=
  (course_run hm none).levels hm ha hstop .root

/-- The answers of an exploration that ends normally. -/
theorem mem_answers_none (hm : s.program.mode = .nfa) (ha : s.options.stopOnAccept = false)
    (hstop : (s.run none).stop = none) {a : Answer} : a ∈ (s.run none).answers ↔
      s.program.accepts a.state = true ∧
        Trace.Reached s.program s.program.freeMoves ⟨a.path, a.state⟩ := by
  obtain ⟨depth, hnil, hbranches⟩ := run_none_levels hm ha hstop
  rw [Run.answers, hbranches, answersOf_ended]
  simp only [List.mem_map, List.mem_filter, Trace.mem_levels]
  constructor
  · rintro ⟨t, ⟨⟨ht, -⟩, haccepts⟩, rfl⟩
    exact ⟨haccepts, ht⟩
  · rintro ⟨haccepts, ht⟩
    exact ⟨_, ⟨⟨ht, ht.length_lt hnil⟩, haccepts⟩, rfl⟩

/-- The answers of a run on a word that ends normally. -/
theorem mem_answers_some (hm : s.program.mode = .nfa) (ha : s.options.stopOnAccept = false)
    (hstop : (s.run (some word)).stop = none) {a : Answer} : a ∈ (s.run (some word)).answers ↔
      s.program.accepts a.state = true ∧ a.path.length = word.length ∧
        Trace.Reached s.program (s.program.movesAlong word) ⟨a.path, a.state⟩ := by
  rw [Run.answers, (run_levels hm ha hstop).1, answersOf_ended]
  simp only [List.mem_map, List.mem_filter, mem_levels_iff, partialRun_iff_reached,
    Program.acceptsTrace, Bool.and_eq_true, beq_iff_eq]
  constructor
  · rintro ⟨t, ⟨ht, hlength, haccepts⟩, rfl⟩
    exact ⟨haccepts, hlength, ht⟩
  · rintro ⟨haccepts, hlength, ht⟩
    exact ⟨_, ⟨ht, hlength, haccepts⟩, rfl⟩

/-- **The two ways to run a nondeterministic program agree.** Let an exploration end normally. Then
a path on whose word the run ends normally belongs to an answer of the exploration exactly if it
belongs to an answer of that run, and in both it belongs to one answer only, which is the same. -/
theorem answers_correspond (hm : s.program.mode = .nfa) (ha : s.options.stopOnAccept = false)
    (hp : s.program.SpelledTokens) (hexplored : (s.run none).stop = none) (path : List Event)
    (hread : (s.run (some (wordOf path))).stop = none) :
    ((∃ a ∈ (s.run none).answers, a.path = path) ↔
        ∃ a ∈ (s.run (some (wordOf path))).answers, a.path = path) ∧
      ∀ a ∈ (s.run none).answers, a.path = path →
        ((s.run none).answers.filter fun b => b.path = path) = [a] ∧
          ((s.run (some (wordOf path))).answers.filter fun b => b.path = path) = [a] := by
  -- both runs give the same answers on the path
  have hsame : ∀ a : Answer, a.path = path →
      (a ∈ (s.run none).answers ↔ a ∈ (s.run (some (wordOf path))).answers) := by
    rintro a rfl
    rw [mem_answers_none hm ha hexplored, mem_answers_some hm ha hread, length_wordOf]
    refine and_congr_right fun haccepts => ?_
    have hname : a.state.isSentinel = false := by
      cases hs : a.state with
      | named state => rfl
      | sentinel x => simp [hs, Program.accepts] at haccepts
    rw [reached_free_iff hp hname, and_iff_right rfl]
  refine ⟨exists_congr fun a => ?_, ?_⟩
  · exact ⟨fun h => ⟨(hsame a h.2).mp h.1, h.2⟩, fun h => ⟨(hsame a h.2).mpr h.1, h.2⟩⟩
  · rintro a hfree rfl
    have halong := (hsame a rfl).mp hfree
    obtain ⟨depth, -, hbranches⟩ := run_none_levels hm ha hexplored
    constructor
    · rw [Run.answers, hbranches, answersOf_ended] at hfree ⊢
      exact filter_answers (Trace.nodup_levels (Program.nodup_freeMoves _) _) hfree
    · rw [Run.answers, (run_levels hm ha hread).1, answersOf_ended] at halong ⊢
      exact filter_answers (Trace.nodup_levels (Program.nodup_movesAlong _ _) _) halong

/-- A program that reads `null` on the way to its accept state. -/
def throughNull : Simulator where
  program :=
    { alphabet := ["x"]
      states := Dict.ofList
        [("a", Dict.ofList
          [(.null, Dict.ofList [(.named "b", 1)]),
            (.named "x", Dict.ofList [(.named "b", 1), (.null, 1)])]), ("b", ∅)]
      start := "a"
      accept := ["b"]
      mode := .nfa
      commands := ∅
      vars := ∅ }

/-- The path of `throughNull` that reads `null`. -/
def throughNullPath : List Event := [⟨.named "a", .null, .named "b"⟩]

theorem answers_correspond_throughNull :
    throughNull.program.mode = .nfa ∧ throughNull.options.stopOnAccept = false ∧
      throughNull.program.SpelledTokens ∧ (throughNull.run none).stop = none ∧
      (throughNull.run (some (wordOf throughNullPath))).stop = none ∧
      ((throughNull.run (some (wordOf throughNullPath))).answers.filter
        fun b => b.path = throughNullPath) = [⟨.named "b", throughNullPath⟩] := by
  have hp : throughNull.program.SpelledTokens := by
    unfold Program.SpelledTokens Ref.IsSpelled
    decide
  have hexplored : (throughNull.run none).stop = none := by decide +kernel
  have hread : (throughNull.run (some (wordOf throughNullPath))).stop = none := by decide +kernel
  have h := answers_correspond (s := throughNull) rfl rfl hp hexplored throughNullPath hread
  have hanswer : (⟨.named "b", throughNullPath⟩ : Answer) ∈ (throughNull.run none).answers := by
    decide +kernel
  exact ⟨rfl, rfl, hp, hexplored, hread, (h.2 _ hanswer rfl).2⟩

end Simulator

end FiniteAutomata
