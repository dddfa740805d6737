import FiniteAutomata.Proofs.Decimal.RoundTrip
import FiniteAutomata.Proofs.Listing.RoundTrip

/-! # Programs built in code

A program that was built in code need not be assigned what it holds. Its listing shows the
assignments that are missing as well (`Program.addedSettings`), so it is also the listing of the
program that has them (`Program.completed`, `print_completed`).

Such a listing can always be read, as long as its names and values can be shown and nothing clashes
with the syntax (`Program.Printable`): reading drafts the same tables, the same commands in the
order of the states, and all assignments that were shown (`parse_print_of_printable`). Validation
then computes alphabet, start, accept states and mode from the assignments alone. So the program
comes back exactly if its own assignments declare what it holds (`Program.Declared`); the added ones
always do. -/

namespace FiniteAutomata

open Text

/-! ### The assignments of a listing -/

namespace Program

/-- The assignments that a reader needs to compute the fields of a program. -/
def neededSettings (p : Program) : List (String × Setting) :=
  (if p.declaresAlphabet then [("lang", .array p.alphabet)] else []) ++
    [("start", .literal p.start)] ++ [("accept", .array p.accept)] ++
    (if p.mode ≠ .dfa then [("mode", .literal p.mode.text)] else [])

/-- The assignments that the listing of a program adds to its own. -/
def addedSettings (p : Program) : List (String × Setting) :=
  p.neededSettings.filter fun e => e.1 ∉ p.vars

/-- A program with all the assignments that its listing shows. -/
def completed (p : Program) : Program := { p with vars := p.vars.insertAll p.addedSettings }

variable (p : Program)

theorem keys_neededSettings :
    (Entries.keys p.neededSettings).Sublist ["lang", "start", "accept", "mode"] := by
  unfold neededSettings
  split_ifs <;> simp [Entries.keys]

theorem find?_neededSettings :
    Entries.find? "lang" p.neededSettings =
        (if p.declaresAlphabet then some (.array p.alphabet) else none) ∧
      Entries.find? "start" p.neededSettings = some (.literal p.start) ∧
      Entries.find? "accept" p.neededSettings = some (.array p.accept) ∧
      Entries.find? "mode" p.neededSettings =
        if p.mode ≠ .dfa then some (.literal p.mode.text) else none := by
  simp [neededSettings, Entries.find?_append, apply_ite (Entries.find? _), Entries.find?]

/-- What is added stands behind the assignments of the program. -/
theorem entries_completed : p.completed.vars.entries = p.vars.entries ++ p.addedSettings := by
  have hneeded : (Entries.keys p.neededSettings).Nodup := p.keys_neededSettings.nodup (by decide)
  have hadded : (Entries.keys p.addedSettings).Nodup :=
    hneeded.sublist (List.filter_sublist.map Prod.fst)
  refine Dict.entries_insertAll (List.nodup_append.mpr ⟨p.vars.nodup, hadded, ?_⟩)
  rintro key hkey _ hk rfl
  obtain ⟨e, he, rfl⟩ := List.mem_map.mp hk
  have hnew := (List.mem_filter.mp he).2
  exact of_decide_eq_true hnew (Dict.mem_iff_mem_keys.mpr hkey)

/-- Under a key that is not assigned stands what a reader needs there. -/
theorem find?_completed (key : String) : p.completed.vars.find? key =
    (p.vars.find? key).or (Entries.find? key p.neededSettings) := by
  have hadded : Entries.find? key p.addedSettings =
      if key ∉ p.vars then Entries.find? key p.neededSettings else none := by
    simpa [addedSettings] using Entries.find?_filter_key key (· ∉ p.vars) p.neededSettings
  rw [Dict.find?, entries_completed, Entries.find?_append, hadded, ← Dict.find?]
  cases h : p.vars.find? key with
  | some value => rfl
  | none => simp [Dict.mem_iff_find?, h]

/-- Nothing is missing in a completed program. -/
theorem addedSettings_completed : p.completed.addedSettings = [] := by
  refine List.filter_eq_nil_iff.mpr fun e he => ?_
  have hfind : Entries.find? e.1 p.neededSettings = some e.2 :=
    Entries.find?_of_mem (p.keys_neededSettings.nodup (by decide)) he
  have hmem : e.1 ∈ p.completed.vars := by
    rw [Dict.mem_iff_find?, find?_completed, hfind]
    cases p.vars.find? e.1 <;> simp
  simpa using hmem

variable {p} in
/-- The weights of a valid program read back. -/
theorem Valid.weightsReadBack (h : p.Valid) : p.WeightsReadBack :=
  fun s hs t ht e he => Decimal.readsBack_of_isWeight ((h.destinations s hs t ht).weights e he)

end Program

namespace Listing

variable {p q : Program}

/-- **The assignments of a listing** are those of the program and those that are added. -/
theorem printVars_eq_map (p : Program) :
    printVars p = (p.vars.entries ++ p.addedSettings).map fun e => printSetting e.1 e.2 := by
  -- one of the four is added if it is needed and not there
  have hkeep : ∀ (key : String) (value : Setting),
      [(key, value)].filter (fun e => decide (e.1 ∉ p.vars)) =
        if key ∉ p.vars then [(key, value)] else [] := by
    intro key value
    by_cases hk : key ∈ p.vars <;> simp [hk]
  simp only [printVars, Program.addedSettings, Program.neededSettings, List.filter_append,
    List.map_append, apply_ite (List.filter _), hkeep, apply_ite (List.map _), List.filter_nil,
    List.map_nil, List.map_cons, printSetting, List.append_assoc, Bool.and_eq_true,
    decide_eq_true_eq, ← ite_and, and_comm]

/-- **A program and its completion have the same listing.** -/
theorem print_completed (p : Program) : print p.completed = print p := by
  have hvars : printVars p.completed = printVars p := by
    rw [printVars_eq_map, p.addedSettings_completed, List.append_nil, p.entries_completed,
      printVars_eq_map]
  rw [print, printLines, hvars]
  rfl

end Listing

/-! ### Programs that can be printed -/

open Listing

/-- A valid program whose names and values can be shown, and whose listing does not clash with the
syntax. -/
structure Program.Printable (p : Program) : Prop where
  valid : p.Valid
  states : ∀ s ∈ p.states.entries, LegibleState s.1
  tokens : ∀ s ∈ p.states.entries, ∀ t ∈ s.2.entries, ∀ name, t.1 = .named name → LegibleToken t.1
  bare : ¬ HasBracketClash p
  lists : ∀ s ∈ p.states.entries, ∀ t ∈ s.2.entries, isBare t.2 = false →
    ∀ e ∈ t.2.entries, ',' ∉ e.1.lexeme.toList
  hyphens : ¬ HasHyphenClash p
  commands : ∀ e ∈ p.commands.entries,
    e.1 ∈ p.states ∧ e.2 ≠ [] ∧ ∀ c ∈ e.2, LegibleCommand c
  keys : ∀ e ∈ p.vars.entries, LegibleKey e.1
  values : ∀ e ∈ p.vars.entries ++ p.addedSettings, LegibleSetting e.2
  headers : ¬ HeaderClash p.completed

/-- A program whose own assignments declare what it holds. What is not assigned is added to the
listing, so the fields in question only have to be such that reading can give them: an alphabet
without repetitions that covers the tokens, or the tokens in order of first use if it is not
declared, and accept states without repetitions. -/
structure Program.Declared (p : Program) : Prop where
  lang : ∀ value, p.vars.find? "lang" = some value →
    p.declaresAlphabet = true ∧ ∃ items, value = .array items ∧ p.alphabet = items.eraseDups
  declared : p.declaresAlphabet = true →
    p.alphabet.Nodup ∧ Draft.tokenNames p.states.entries ⊆ p.alphabet
  undeclared : p.declaresAlphabet = false →
    p.alphabet = (Draft.tokenNames p.states.entries).eraseDups
  start : ∀ value, p.vars.find? "start" = some value → value = .literal p.start
  accept : ∀ value, p.vars.find? "accept" = some value →
    ∃ items, value = .array items ∧ p.accept = items.eraseDups
  accepting : p.accept ≠ [] ∧ p.accept.Nodup
  mode : ∀ value, p.vars.find? "mode" = some value → value = .literal p.mode.text

namespace Listing

variable {p q : Program}

theorem legibleToken_sentinel (x : Sentinel) : LegibleToken (.sentinel x) := by
  cases x <;> exact ⟨⟨by decide, by decide, by decide⟩, by decide, by decide⟩

/-- The name of a state is legible as a destination. -/
theorem LegibleState.legibleName {name : String} (h : LegibleState name) :
    LegibleName (.named name) :=
  ⟨Ref.ofLexeme_of_not_reserved h.unreserved, h.solid, h.tabless⟩

theorem legibleKey_of_mem_neededSettings {e : String × Setting} (h : e ∈ p.neededSettings) :
    LegibleKey e.1 := by
  have hkey := p.keys_neededSettings.subset (List.mem_map.mpr ⟨e, h, rfl⟩)
  have hall : ∀ key ∈ ["lang", "start", "accept", "mode"],
      Solid key.toList ∧ '=' ∉ key.toList ∧ key.toList.head? ≠ some '#' := by decide
  obtain ⟨h1, h2, h3⟩ := hall _ hkey
  exact ⟨h1, h2, h3⟩

/-- The parts of a program that can be printed are legible. -/
theorem legible_completed (hp : p.Printable) : p.completed.toDraft.Legible := by
  refine ⟨fun e he => ?_, fun s hs => ⟨hp.states s hs, fun t ht => ⟨?_, ?_⟩⟩, fun e he => ?_⟩
  · have he : e ∈ p.vars.entries ++ p.addedSettings := p.entries_completed ▸ he
    refine ⟨?_, hp.values e he⟩
    rcases List.mem_append.mp he with he | he
    · exact hp.keys e he
    · exact legibleKey_of_mem_neededSettings (List.mem_filter.mp he).1
  · cases hname : t.1 with
    | named name => exact hname ▸ hp.tokens s hs t ht name hname
    | sentinel x => exact legibleToken_sentinel x
  · have hd := hp.valid.destinations s hs t ht
    refine ⟨hd.nonempty, fun e he => ?_, hd.weights, hp.lists s hs t ht⟩
    cases hname : e.1 with
    | sentinel x => exact (legibleToken_sentinel x).toLegibleName
    | named name =>
      -- a destination that is a name is one of the states
      obtain ⟨table, htable⟩ := Dict.mem_iff_find?.mp (hd.known e he name hname)
      exact (hp.states _ (Dict.find?_eq_some_iff.mp htable)).legibleName
  · obtain ⟨hstate, hrest⟩ := hp.commands e he
    exact ⟨Dict.mem_iff_mem_keys.mp hstate, hrest⟩

theorem shown_completed (hp : p.Printable) : Shown p.completed where
  populated := by
    obtain ⟨table, hfind⟩ := Dict.mem_iff_find?.mp hp.valid.start
    exact List.ne_nil_of_mem (Dict.find?_eq_some_iff.mp hfind)
  parts := legible_completed hp
  settings := by rw [printVars_eq_map, p.addedSettings_completed, List.append_nil]

/-- In the order of the states stand the commands of the program, no more and no fewer. -/
theorem perm_orderedCommands (h : ∀ e ∈ p.commands.entries, e.1 ∈ p.states) :
    p.commands.entries.Perm (orderedCommands p).entries := by
  have hmem : ∀ e, e ∈ commandEntries p p.states.keys ↔ e ∈ p.commands.entries := by
    rintro ⟨state, cs⟩
    rw [commandEntries, List.mem_filterMap]
    constructor
    · rintro ⟨state', -, he⟩
      obtain ⟨cs', hf, he⟩ := Option.map_eq_some_iff.mp he
      obtain ⟨rfl, rfl⟩ := Prod.mk.inj he
      exact Dict.find?_eq_some_iff.mp hf
    · intro he
      exact ⟨state, Dict.mem_iff_mem_keys.mp (h _ he), by simp [Dict.find?_eq_some_iff.mpr he]⟩
  have hkeys : (Entries.keys (commandEntries p p.states.keys)).Nodup := by
    rw [commandEntries, Dict.keys_filterMap_find?]
    exact p.states.nodup.sublist List.filter_sublist
  have hentries : (orderedCommands p).entries = commandEntries p p.states.keys := by
    rw [orderedCommands, Dict.entries_insertAll (by simpa using hkeys)]
    rfl
  rw [hentries, List.perm_ext_iff_of_nodup (List.Nodup.of_map _ p.commands.nodup)
    (List.Nodup.of_map _ hkeys)]
  exact fun e => (hmem e).symm

/-! ### What validation computes -/

/-- The draft that is read from the listing of a program. -/
def drafted (p : Program) : Draft := ⟨p.states, orderedCommands p, p.completed.vars⟩

/-- **The alphabet** comes back exactly if the program does not assign another one, and if reading
can give it. -/
theorem resolveAlphabet_drafted : (drafted p).resolveAlphabet =
      .ok (p.alphabet, p.declaresAlphabet) ↔
    (∀ value, p.vars.find? "lang" = some value →
        p.declaresAlphabet = true ∧ ∃ items, value = .array items ∧ p.alphabet = items.eraseDups) ∧
      (p.declaresAlphabet = true →
        p.alphabet.Nodup ∧ Draft.tokenNames p.states.entries ⊆ p.alphabet) ∧
      (p.declaresAlphabet = false →
        p.alphabet = (Draft.tokenNames p.states.entries).eraseDups) := by
  rw [Draft.resolveAlphabet_eq_ok_iff, drafted, p.find?_completed, p.find?_neededSettings.1]
  dsimp only
  cases hl : p.vars.find? "lang" with
  | none =>
    cases p.declaresAlphabet with
    | false => simp
    | true =>
      have hself : p.alphabet = p.alphabet.eraseDups ↔ p.alphabet.Nodup := by
        rw [eq_comm, Draft.eraseDups_eq_self_iff]
      simp [hself, and_comm]
  | some value =>
    simp only [Option.some_or, reduceCtorEq, false_and, false_or, Option.some.injEq, forall_eq']
    constructor
    · rintro ⟨items, rfl, hdeclared, hcovers, halphabet⟩
      refine ⟨⟨hdeclared, items, rfl, halphabet⟩, fun _ => ?_, by simp [hdeclared]⟩
      rw [halphabet]
      exact ⟨Draft.nodup_eraseDups items, fun name h => List.mem_eraseDups.mpr (hcovers h)⟩
    · rintro ⟨⟨hdeclared, items, rfl, halphabet⟩, hcovers, -⟩
      refine ⟨items, rfl, hdeclared, fun name h => ?_, halphabet⟩
      have hmem := (hcovers hdeclared).2 h
      rw [halphabet] at hmem
      exact List.mem_eraseDups.mp hmem

/-- **The start state** comes back exactly if the program does not assign another one. -/
theorem resolveStart_drafted (hp : p.Printable) : (drafted p).resolveStart = .ok p.start ↔
    ∀ value, p.vars.find? "start" = some value → value = .literal p.start := by
  obtain ⟨table, hstart⟩ := Dict.mem_iff_find?.mp hp.valid.start
  have hfree := (hp.states _ (Dict.find?_eq_some_iff.mp hstart)).unreserved
  rw [Draft.resolveStart_eq_ok_iff, drafted, p.find?_completed, p.find?_neededSettings.2.1]
  cases p.vars.find? "start" <;> simp [hfree, hp.valid.start]

/-- **The accept states** come back exactly if the program does not assign others, and if there are
some and none twice. -/
theorem resolveAccept_drafted (hp : p.Printable) : (drafted p).resolveAccept = .ok p.accept ↔
    (∀ value, p.vars.find? "accept" = some value →
        ∃ items, value = .array items ∧ p.accept = items.eraseDups) ∧
      p.accept ≠ [] ∧ p.accept.Nodup := by
  have hstates : ∀ state ∈ p.accept, isReserved state = false ∧ state ∈ p.states := by
    intro state hstate
    have hmem := hp.valid.accept state hstate
    obtain ⟨table, htable⟩ := Dict.mem_iff_find?.mp hmem
    exact ⟨(hp.states _ (Dict.find?_eq_some_iff.mp htable)).unreserved, hmem⟩
  rw [Draft.resolveAccept_eq_ok_iff, drafted, p.find?_completed, p.find?_neededSettings.2.2.1]
  dsimp only
  cases hl : p.vars.find? "accept" with
  | none =>
    have hself : p.accept = p.accept.eraseDups ↔ p.accept.Nodup := by
      rw [eq_comm, Draft.eraseDups_eq_self_iff]
    simpa [hself] using fun _ _ => hstates
  | some value =>
    simp only [Option.some_or, Option.some.injEq, forall_eq']
    constructor
    · rintro ⟨items, rfl, hne, -, haccept⟩
      refine ⟨⟨items, rfl, haccept⟩, ?_, haccept ▸ Draft.nodup_eraseDups items⟩
      obtain ⟨item, hitem⟩ := List.exists_mem_of_ne_nil items hne
      exact haccept ▸ List.ne_nil_of_mem (List.mem_eraseDups.mpr hitem)
    · rintro ⟨⟨items, rfl, haccept⟩, hne, -⟩
      refine ⟨items, rfl, ?_, fun state hstate => ?_, haccept⟩
      · rintro rfl
        exact hne haccept
      · exact hstates state (haccept ▸ List.mem_eraseDups.mpr hstate)

/-- **The mode** comes back exactly if the program does not assign another one. -/
theorem resolveMode_drafted : (drafted p).resolveMode = .ok p.mode ↔
    ∀ value, p.vars.find? "mode" = some value → value = .literal p.mode.text := by
  rw [Draft.resolveMode_eq_ok_iff, drafted, p.find?_completed, p.find?_neededSettings.2.2.2]
  cases p.vars.find? "mode" with
  | none => by_cases hm : p.mode = .dfa <;> simp [hm]
  | some value => simp

/-- The program that comes back from the listing of one that declares what it holds. -/
def restored (p : Program) : Program := { p.completed with commands := orderedCommands p }

theorem resolves_drafted_iff (hp : p.Printable) :
    (drafted p).Resolves (restored p) ↔ p.Declared := by
  constructor
  · intro h
    obtain ⟨hlang, hdeclared, hundeclared⟩ := resolveAlphabet_drafted.mp h.alphabet
    obtain ⟨haccept, haccepting⟩ := (resolveAccept_drafted hp).mp h.accept
    exact ⟨hlang, hdeclared, hundeclared, (resolveStart_drafted hp).mp h.start, haccept,
      haccepting, resolveMode_drafted.mp h.mode⟩
  · intro h
    have hreferences : (drafted p).checkReferences = .ok () :=
      Draft.checkReferences_eq_ok_iff.mpr fun s hs t ht => (hp.valid.destinations s hs t ht).known
    have hvalid : (restored p).Valid := ⟨hp.valid.start, hp.valid.accept, fun s hs t ht =>
      have hd := hp.valid.destinations s hs t ht
      ⟨hd.nonempty, hd.weights, hd.known⟩⟩
    exact ⟨resolveAlphabet_drafted.mpr ⟨h.lang, h.declared, h.undeclared⟩, hreferences,
      (resolveStart_drafted hp).mpr h.start,
      (resolveAccept_drafted hp).mpr ⟨h.accept, h.accepting⟩, resolveMode_drafted.mpr h.mode,
      rfl, rfl, rfl, Program.flaw?_eq_none_iff.mpr hvalid⟩

/-- The only program that agrees with the completed one and has its tables in order, the commands
in the order of the states and the assignments in order is the restored one. -/
theorem eq_restored_of_agrees (h : (drafted p).Resolves q) (ha : p.completed.agrees q = true) :
    q = restored p := by
  obtain ⟨halphabet, -, hstart, haccept, hmode, -, -, hdeclares⟩ := agrees_iff.mp ha
  obtain ⟨alphabet, states, start, accept, mode, commands, vars, declares⟩ := q
  obtain rfl : states = p.states := h.states
  obtain rfl : commands = orderedCommands p := h.commands
  obtain rfl : vars = p.completed.vars := h.vars
  dsimp only at halphabet hstart haccept hmode hdeclares
  subst halphabet hstart haccept hmode hdeclares
  rfl

theorem agrees_restored (hp : p.Printable) : p.completed.agrees (restored p) = true := by
  have hself := agrees_iff.mp (agrees_self (legible_completed hp))
  obtain ⟨-, hstates, -, -, -, -, hvars, -⟩ := hself
  have hcommands : p.completed.commandsAgree (restored p) = true :=
    Dict.agrees_of_entries_perm (perm_orderedCommands fun e he => (hp.commands e he).1)
      fun _ _ => by simp
  exact agrees_iff.mpr ⟨rfl, hstates, rfl, rfl, rfl, hcommands, hvars, rfl⟩

/-- **Printing is faithful for programs built in code.** From the listing of a program that can be
printed its tables, its commands in the order of the states, and its assignments with the missing
ones behind them are drafted, and what validation makes of the draft is read. That agrees with the
program that has all these assignments exactly if its own ones declare what it holds, and then it is
the very same program up to the order of the commands. -/
theorem parse_print_of_printable (hp : p.Printable) :
    parse (print p) = (drafted p).validate.mapError .inconsistent ∧
      p.completed.vars.entries = p.vars.entries ++ p.addedSettings ∧
      p.commands.entries.Perm (orderedCommands p).entries ∧
      ((∃ q, parse (print p) = .ok q ∧ p.completed.agrees q = true) ↔ p.Declared) ∧
      (p.Declared → parse (print p) = .ok (restored p)) := by
  have hparse : parse (print p) = (drafted p).validate.mapError .inconsistent := by
    rw [← print_completed,
      parse_print_of_shown (shown_completed hp) hp.valid.weightsReadBack hp.hyphens hp.bare
        hp.headers]
    rfl
  have hok : ∀ q, parse (print p) = .ok q ↔ (drafted p).Resolves q := by
    intro q
    rw [hparse, ← Draft.validate_eq_ok_iff]
    cases (drafted p).validate <;> simp [Except.mapError]
  refine ⟨hparse, p.entries_completed, perm_orderedCommands fun e he => (hp.commands e he).1, ?_,
    fun h => (hok _).mpr ((resolves_drafted_iff hp).mpr h)⟩
  constructor
  · rintro ⟨q, hq, ha⟩
    have hres := (hok q).mp hq
    exact (resolves_drafted_iff hp).mp (eq_restored_of_agrees hres ha ▸ hres)
  · intro h
    exact ⟨restored p, (hok _).mpr ((resolves_drafted_iff hp).mpr h), agrees_restored hp⟩

/-- A program without any assignments, whose state has a command and a loop. -/
def loopProgram : Program where
  alphabet := ["x"]
  states := Dict.ofList [("q0", Dict.ofList [(.named "x", Dict.ofList [(.named "q0", 1)])])]
  start := "q0"
  accept := ["q0"]
  commands := Dict.ofList [("q0", [⟨"log", ["hi"]⟩])]
  declaresAlphabet := true

theorem printable_loopProgram : loopProgram.Printable where
  valid := by decide +kernel
  states := List.forall_mem_singleton.mpr
    ⟨by decide, by decide, by decide, by decide, by decide⟩
  tokens := List.forall_mem_singleton.mpr <| List.forall_mem_singleton.mpr fun _ _ =>
    ⟨⟨by decide, by decide, by decide⟩, by decide, by decide⟩
  bare := by decide +kernel
  lists := List.forall_mem_singleton.mpr <| List.forall_mem_singleton.mpr (by decide +kernel)
  hyphens := by decide +kernel
  commands := by
    have hword : "log".toList.all isWord = true := by decide +kernel
    exact List.forall_mem_singleton.mpr ⟨by decide, by decide, List.forall_mem_singleton.mpr
      ⟨by decide, List.all_eq_true.mp hword, List.forall_mem_singleton.mpr (by decide)⟩⟩
  keys := List.forall_mem_nil _
  values := by
    have hshown : loopProgram.vars.entries ++ loopProgram.addedSettings =
        [("lang", .array ["x"]), ("start", .literal "q0"), ("accept", .array ["q0"])] := rfl
    rw [hshown]
    refine List.forall_mem_cons.mpr ⟨?_, List.forall_mem_cons.mpr ⟨?_, ?_⟩⟩
    · exact List.forall_mem_singleton.mpr (by decide)
    · exact ⟨by decide, by decide⟩
    · exact List.forall_mem_singleton.mpr (List.forall_mem_singleton.mpr (by decide))
  headers := by decide +kernel

/-- What is missing is added in front of the states, and the program comes back. -/
theorem parse_print_of_printable_loopProgram :
    loopProgram.Printable ∧
      print loopProgram = "lang = [x]\nstart = q0\naccept = [q0]\nq0:\n\t$log(hi)\n\tx\tq0\n" ∧
      parse (print loopProgram) = .ok (restored loopProgram) := by
  have hp := printable_loopProgram
  have hprint : print loopProgram =
      "lang = [x]\nstart = q0\naccept = [q0]\nq0:\n\t$log(hi)\n\tx\tq0\n" := by decide +kernel
  have hnone : ∀ key, loopProgram.vars.find? key = none := fun _ => rfl
  have hdeclared : loopProgram.Declared :=
    ⟨by simp [hnone], fun _ => by decide, by decide, by simp [hnone], by simp [hnone], by decide,
      by simp [hnone]⟩
  exact ⟨hp, hprint, (parse_print_of_printable hp).2.2.2.2 hdeclared⟩

end Listing

end FiniteAutomata
