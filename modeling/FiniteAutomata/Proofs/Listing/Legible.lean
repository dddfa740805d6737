import FiniteAutomata.Listing.Reader
import FiniteAutomata.Proofs.Listing.Destinations

/-! # What reading gives is legible

The parts of a draft are legible if each can be cut out of its printed line again: keys and values
of assignments, names of states, tokens, destination sets and commands (`Draft.Legible`).

A line does one of few things to a reader (`Reader.Step`, `step_of_line`), and each adds legible
parts only, opens states in order and adds commands to the last one (`Reader.Consistent`). So what
was drafted is legible, and its commands stand in the order of their states (`consistent_lines`). -/

namespace FiniteAutomata

open Text

namespace Listing

/-! ### Legible parts -/

/-- A key: solid, without an equals sign, and not taken for a comment. -/
structure LegibleKey (key : String) : Prop where
  solid : Solid key.toList
  signless : '=' ∉ key.toList
  uncommented : key.toList.head? ≠ some '#'

/-- A value: a solid text not taken for an array, or an array of solid items that hold neither
commas nor brackets that close it. -/
def LegibleSetting : Setting → Prop
  | .literal text => Solid text.toList ∧ text.toList.head? ≠ some '['
  | .array items => ∀ item ∈ items, Solid item.toList ∧ ',' ∉ item.toList ∧ ']' ∉ item.toList

/-- The name of a state: solid, without colons and tabs, not taken for a comment, and not reserved.
-/
structure LegibleState (name : String) : Prop where
  solid : Solid name.toList
  colonless : ':' ∉ name.toList
  tabless : '\t' ∉ name.toList
  uncommented : name.toList.head? ≠ some '#'
  unreserved : isReserved name = false

/-- A token: a legible name not taken for a comment or a command. -/
structure LegibleToken (token : Token) : Prop extends LegibleName token where
  uncommented : token.lexeme.toList.head? ≠ some '#'
  noCommand : token.lexeme.toList.head? ≠ some '$'

/-- A command: a word, and solid arguments without commas. -/
structure LegibleCommand (c : Command) : Prop where
  nonempty : c.name.toList ≠ []
  word : ∀ x ∈ c.name.toList, isWord x = true
  args : ∀ arg ∈ c.args, Solid arg.toList ∧ ',' ∉ arg.toList

/-- The table of a state: legible tokens with legible destination sets. -/
def LegibleTable (t : Table) : Prop :=
  ∀ e ∈ t.entries, LegibleToken e.1 ∧ LegibleDestinations e.2

end Listing

/-- A draft whose parts are all legible; a state that has commands is drafted. -/
structure Draft.Legible (d : Draft) : Prop where
  vars : ∀ e ∈ d.vars.entries, Listing.LegibleKey e.1 ∧ Listing.LegibleSetting e.2
  states : ∀ e ∈ d.states.entries, Listing.LegibleState e.1 ∧ Listing.LegibleTable e.2
  commands : ∀ e ∈ d.commands.entries,
    e.1 ∈ d.states.keys ∧ e.2 ≠ [] ∧ ∀ c ∈ e.2, Listing.LegibleCommand c

namespace Listing

/-! ### Lines -/

variable {line : List Char}

theorem ofTrimmed_eq_header {name : List Char} (h : Line.ofTrimmed line = .header name) :
    line.head? ≠ some '#' ∧ isHeader line = true ∧ name = trim line.dropLast := by
  unfold Line.ofTrimmed at h
  split_ifs at h with h1 h2
  rw [Bool.or_eq_true, not_or] at h1
  exact ⟨by simpa using h1.2, h2, (Line.header.inj h).symm⟩

theorem ofTrimmed_eq_content {text : List Char} (h : Line.ofTrimmed line = .content text) :
    text = line ∧ line ≠ [] ∧ line.head? ≠ some '#' := by
  unfold Line.ofTrimmed at h
  split_ifs at h with h1 h2
  rw [Bool.or_eq_true, not_or] at h1
  exact ⟨(Line.content.inj h).symm, by simpa using h1.1, by simpa using h1.2⟩

theorem isHeader_eq_true : isHeader line = true ↔
    line.getLast? = some ':' ∧ line.count ':' = 1 ∧ '\t' ∉ line := by
  simp only [isHeader, Bool.and_eq_true, decide_eq_true_eq, Bool.not_eq_eq_eq_not, Bool.not_true,
    List.contains_eq_mem, decide_eq_false_iff_not, and_assoc]

/-- A line that ends in its only colon and holds no tab is the name before the colon. -/
theorem isHeader_iff : isHeader line = true ↔
    ∃ name, line = name ++ [':'] ∧ ':' ∉ name ∧ '\t' ∉ name := by
  rw [isHeader_eq_true]
  constructor
  · rintro ⟨hlast, hcount, htab⟩
    obtain ⟨name, rfl⟩ := List.getLast?_eq_some_iff.mp hlast
    refine ⟨name, rfl, ?_, ?_⟩
    · rw [List.count_append, List.count_singleton_self] at hcount
      exact List.count_eq_zero.mp (by omega)
    · simpa using htab
  · rintro ⟨name, rfl, hcolon, htab⟩
    refine ⟨by simp, ?_, by simpa using htab⟩
    rw [List.count_append, List.count_eq_zero.mpr hcolon, List.count_singleton_self]

/-- The name in a header is legible, unless it is empty or reserved. -/
theorem legibleState_of_header {name : List Char} (hline : Unbroken line)
    (htrim : trim line = line) (h : Line.ofTrimmed line = .header name) (hne : name ≠ [])
    (hres : isReserved (String.ofList name) = false) : LegibleState (String.ofList name) := by
  obtain ⟨hhash, hheader, rfl⟩ := ofTrimmed_eq_header h
  obtain ⟨body, rfl, hcolon, htab⟩ := isHeader_iff.mp hheader
  rw [List.dropLast_concat] at hne hres ⊢
  have hbreak : Unbroken body := (unbroken_append.mp hline).1
  refine ⟨?_, ?_, ?_, ?_, hres⟩ <;> rw [String.toList_ofList]
  · exact solid_trim hbreak hne
  · exact fun hc => hcolon (mem_of_mem_trim hc)
  · exact fun hc => htab (mem_of_mem_trim hc)
  · -- the line starts with no blank, so the name starts as the line does
    cases body with
    | nil => simp [trim, trimRight_eq] at hne
    | cons c body =>
      have hblank := (trim_eq_self_iff.mp htrim).1 c rfl
      rw [head?_trim (c := c) (by rw [trimLeft_of_not_blank body hblank]; rfl)]
      simpa using hhash

/-! ### Assignments -/

theorem legible_of_readSetting {value : List Char} {s : Setting} (hs : Solid value)
    (h : readSetting value = .ok s) : LegibleSetting s := by
  obtain ⟨c, rest, rfl, -⟩ := hs.head
  by_cases hc : c = '['
  · subst hc
    rw [readSetting] at h
    rcases ha : readArray rest with e | items
    · simp [ha, Except.map] at h
    · simp only [ha, Except.map, Except.ok.injEq] at h
      subst h
      unfold readArray at ha
      split at ha
      · simp at ha
      · next body tail hsplit =>
        split_ifs at ha
        simp only [Except.ok.injEq] at ha
        subst ha
        obtain ⟨rfl, hbracket⟩ := eq_of_splitFirst? hsplit
        intro item hitem
        obtain ⟨piece, hpiece, rfl⟩ := List.mem_map.mp hitem
        obtain ⟨hne, htrim, hmem, hcomma⟩ := mem_commaItems hpiece
        rw [String.toList_ofList]
        refine ⟨⟨hne, htrim, fun c hc => hs.unbroken c ?_⟩, hcomma, fun hc => hbracket (hmem _ hc)⟩
        exact List.mem_cons_of_mem _ (List.mem_append_left _ (hmem c hc))
  · have hv : readSetting (c :: rest) = .ok (.literal (String.ofList (c :: rest))) := by
      simp [readSetting, hc]
    rw [hv, Except.ok.injEq] at h
    subst h
    exact ⟨by simpa using hs, by simpa using hc⟩

/-- **The key and the value of an assignment are legible.** -/
theorem legible_of_readAssignment {key : String} {value : Setting} (hline : Unbroken line)
    (htrim : trim line = line) (hhash : line.head? ≠ some '#')
    (h : readAssignment line = .ok (key, value)) : LegibleKey key ∧ LegibleSetting value := by
  unfold readAssignment at h
  split at h
  · simp at h
  · next left right hsplit =>
    obtain ⟨rfl, hsign⟩ := eq_of_splitFirst? hsplit
    obtain ⟨hleft, hright⟩ := unbroken_append.mp hline
    simp only at h
    split_ifs at h with hkey hvalue
    rcases hs : readSetting (trim right) with e | s
    · simp [hs, Except.map] at h
    · simp only [hs, Except.map, Except.ok.injEq, Prod.mk.injEq] at h
      obtain ⟨rfl, rfl⟩ := h
      have hne : trim left ≠ [] := by simpa using hkey
      refine ⟨⟨?_, ?_, ?_⟩, ?_⟩
      · rw [String.toList_ofList]
        exact solid_trim hleft hne
      · rw [String.toList_ofList]
        exact fun hc => hsign (mem_of_mem_trim hc)
      · rw [String.toList_ofList]
        cases left with
        | nil => simp [trim, trimRight_eq] at hne
        | cons c left =>
          have hblank := (trim_eq_self_iff.mp htrim).1 c rfl
          rw [head?_trim (c := c) (by rw [trimLeft_of_not_blank left hblank]; rfl)]
          simpa using hhash
      · exact legible_of_readSetting
          (solid_trim (unbroken_cons.mp hright).2 (by simpa using hvalue)) hs

/-! ### Lines of a block -/

/-- **A command that was read is legible.** -/
theorem legible_of_readCommand? {c : Command} (hline : Unbroken line)
    (h : readCommand? line = some c) : LegibleCommand c := by
  unfold readCommand? at h
  split at h
  · next rest =>
    have hword : ∀ x ∈ rest.takeWhile isWord, isWord x = true :=
      List.all_eq_true.mp List.all_takeWhile
    simp only at h
    split_ifs at h with hname
    have hne : rest.takeWhile isWord ≠ [] := by simpa using hname
    split at h
    · simp only [Option.some.injEq] at h
      subst h
      exact ⟨by simpa using hne, by simpa using hword, by simp⟩
    · next body hbody =>
      split_ifs at h
      simp only [Option.some.injEq] at h
      subst h
      refine ⟨by simpa using hne, by simpa using hword, ?_⟩
      intro arg harg
      obtain ⟨piece, hpiece, rfl⟩ := List.mem_map.mp harg
      obtain ⟨hne', htrim, hmem, hcomma⟩ := mem_commaItems hpiece
      rw [String.toList_ofList]
      refine ⟨⟨hne', htrim, fun x hx => hline x ?_⟩, hcomma⟩
      have hsuffix : '(' :: body <:+ rest := by
        rw [← hbody]
        exact (List.dropWhile_suffix _).trans (List.dropWhile_suffix _)
      exact List.mem_cons_of_mem _ (hsuffix.subset
        (List.mem_cons_of_mem _ ((List.dropLast_sublist _).subset (hmem x hx))))
    · simp at h
  · simp at h

/-- **A transition that was read** adds a new legible token with a legible destination set. -/
theorem legible_of_readTransition {state : String} {table table' : Table} {c : Char}
    {rest : List Char} (hline : Unbroken (c :: rest)) (hblank : isBlank c = false)
    (hhash : c ≠ '#') (hdollar : c ≠ '$')
    (h : readTransition state table (c :: rest) = .ok table') :
    ∃ token d, LegibleToken token ∧ LegibleDestinations d ∧ table' = table.insert token d := by
  unfold readTransition at h
  split at h
  · simp at h
  · next left right hsplit =>
    obtain ⟨hcut, htab⟩ := eq_of_splitFirst? hsplit
    cases left with
    | nil =>
      have hc : c = '\t' := (List.cons.inj hcut).1
      rw [hc] at hblank
      exact absurd hblank (by decide)
    | cons c' left =>
      obtain ⟨rfl, hrest⟩ := List.cons.inj hcut
      rw [hcut] at hline
      obtain ⟨hleft, hright⟩ := unbroken_append.mp hline
      simp only at h
      split_ifs at h with htabs htoken hempty hnew
      rcases hd : readDestinations (trim right) with e | d
      · simp [hd, Except.map] at h
      · simp only [hd, Except.map, Except.ok.injEq] at h
        have hhead : (trim (c :: left)).head? = some c :=
          head?_trim (by rw [trimLeft_of_not_blank left hblank]; rfl)
        have hne : trim (c :: left) ≠ [] := by
          intro hnil
          simp [hnil] at hhead
        have hsolid : Solid (trim right) :=
          solid_trim (unbroken_cons.mp hright).2 (by simpa using hempty)
        refine ⟨_, d, ⟨⟨by simp, ?_, ?_⟩, ?_, ?_⟩,
          legible_of_readDestinations hsolid (by simpa using htabs) hd, h.symm⟩ <;>
          rw [Ref.lexeme_ofLexeme, String.toList_ofList]
        · exact solid_trim hleft hne
        · exact fun hm => htab (mem_of_mem_trim hm)
        · rw [hhead]
          simpa using hhash
        · rw [hhead]
          simpa using hdollar

/-! ### What a line does to a reader -/

namespace Reader

variable {r next : Reader} {raw : List Char}

@[simp] theorem withTable_withTable (r : Reader) (state : String) (t u : Table) :
    (r.withTable state t).withTable state u = r.withTable state u := by simp [withTable]

/-- What a line may do to a reader: nothing, open the block of a new state, assign a variable before
the first state, or add a command or a transition to the state whose block is open. -/
inductive Step (r : Reader) (raw : List Char) : Reader → Prop where
  | skip (h : Line.ofTrimmed (trim raw) = .skipped) : Step r raw r
  | openState {name : List Char} (h : Line.ofTrimmed (trim raw) = .header name) (hne : name ≠ [])
      (hres : isReserved (String.ofList name) = false)
      (hnew : String.ofList name ∉ r.draft.states.keys) : Step r raw (r.opened (String.ofList name))
  | assign {key : String} {value : Setting}
      (h : Line.ofTrimmed (trim raw) = .content (trim raw)) (hb : r.phase = .general)
      (hread : readAssignment (trim raw) = .ok (key, value)) : Step r raw (r.withVar key value)
  | command {c : Command}
      (h : Line.ofTrimmed (trim raw) = .content (trim raw)) (hb : r.phase = .state)
      (hread : readCommand? (trim raw) = some c) : Step r raw (r.addCommand r.current c)
  | transition {table : Table}
      (h : Line.ofTrimmed (trim raw) = .content (trim raw)) (hb : r.phase = .state)
      (hdollar : (trim raw).head? ≠ some '$')
      (hread : readTransition r.current ((r.draft.states.find? r.current).getD ∅) (trimLeft raw) =
        .ok table) : Step r raw (r.withTable r.current table)

/-- What handling a line can come to: it fails and leaves the reader as it was, or it has done one
of these. -/
theorem step_or_fault (r : Reader) (raw : List Char) :
    (∃ fault, Handler.line raw r = .error fault r) ∨
      ∃ next, Handler.line raw r = .ok () next ∧ r.Step raw next := by
  rw [Handler.line_eq]
  cases hk : Line.ofTrimmed (trim raw) with
  | skipped => exact Or.inr ⟨r, rfl, .skip hk⟩
  | header name =>
    dsimp only
    rw [Handler.openState_eq]
    split_ifs with hempty hres hnew
    · exact Or.inl ⟨_, rfl⟩
    · exact Or.inl ⟨_, rfl⟩
    · exact Or.inl ⟨_, rfl⟩
    · exact Or.inr ⟨_, rfl, .openState hk (by simpa using hempty) (by simpa using hres)
        fun hm => hnew (Dict.mem_iff_mem_keys.mpr hm)⟩
  | content text =>
    obtain ⟨rfl, -, -⟩ := ofTrimmed_eq_content hk
    cases hb : r.phase with
    | general =>
      dsimp only
      rw [Handler.assign_eq]
      cases hread : readAssignment (trim raw) with
      | error fault => exact Or.inl ⟨fault, rfl⟩
      | ok setting => exact Or.inr ⟨_, rfl, .assign hk hb hread⟩
    | state =>
      dsimp only [Handler.blockLine]
      split_ifs with hdollar
      · rw [Handler.command_eq]
        cases hread : readCommand? (trim raw) with
        | none => exact Or.inl ⟨_, rfl⟩
        | some c => exact Or.inr ⟨_, rfl, .command hk hb hread⟩
      · rw [Handler.transition_eq]
        cases hread : readTransition r.current ((r.draft.states.find? r.current).getD ∅)
            (trimLeft raw) with
        | error fault => exact Or.inl ⟨fault, rfl⟩
        | ok table => exact Or.inr ⟨_, rfl, .transition hk hb hdollar hread⟩

/-- **A line that fails leaves the reader as it was.** -/
theorem handler_atomic {fault : Fault} (h : Handler.line raw r = .error fault next) : next = r := by
  rcases step_or_fault r raw with ⟨fault', herror⟩ | ⟨next', hok, -⟩
  · rw [herror] at h
    cases h
    rfl
  · rw [hok] at h
    cases h

/-- **A line that is read** does one of these. -/
theorem step_of_line (h : r.line raw = .ok next) : r.Step raw next := by
  unfold line at h
  rcases step_or_fault r raw with ⟨fault, herror⟩ | ⟨next', hok, hstep⟩
  · simp [herror] at h
  · rw [hok] at h
    obtain rfl := Except.ok.inj h
    exact hstep

/-- Reading lines, line by line: the first one that fails leaves the reader as the lines before have
made it. -/
theorem lines_cons (r : Reader) (number : ℕ) (raw : List Char) (rest : List (List Char)) :
    r.lines number (raw :: rest) =
      match r.line raw with
      | .ok next => next.lines (number + 1) rest
      | .error fault => (r, some ⟨number, String.ofList (trim raw), fault⟩) := by
  unfold line
  rw [lines]
  cases h : Handler.line raw r with
  | ok _ next => rfl
  | error fault after => rw [handler_atomic h]

/-! Reading lines to the end. -/

variable {ls : List (List Char)}

/-- Reads lines one after the other. -/
def through (r : Reader) (ls : List (List Char)) : Except Fault Reader := ls.foldlM Reader.line r

theorem through_cons_ok (h : r.line raw = .ok next) (ls : List (List Char)) :
    r.through (raw :: ls) = next.through ls := by
  rw [through, List.foldlM_cons, h]
  rfl

theorem exists_line_of_through_cons (h : r.through (raw :: ls) = .ok next) :
    ∃ after, r.line raw = .ok after ∧ after.through ls = .ok next := by
  rw [through, List.foldlM_cons] at h
  cases hl : r.line raw with
  | error fault => rw [hl] at h; cases h
  | ok after => rw [hl] at h; exact ⟨after, rfl, h⟩

theorem through_append (r : Reader) (ls ls' : List (List Char)) :
    r.through (ls ++ ls') = (r.through ls).bind fun r => r.through ls' := List.foldlM_append

/-- Lines are read up to the end exactly if one after the other can be read. -/
theorem lines_eq_none_iff : ∀ {ls : List (List Char)} {r : Reader} {number : ℕ},
    r.lines number ls = (next, none) ↔ r.through ls = .ok next
  | [], r, number => by simp [lines, through, pure, Except.pure]
  | raw :: ls, r, number => by
    rw [lines_cons]
    cases hl : r.line raw with
    | error fault => simp [through, hl, bind, Except.bind]
    | ok after =>
      rw [through_cons_ok hl]
      exact lines_eq_none_iff

end Reader

/-! ### Consistent readers -/

/-- What holds of a reader after any number of lines: its draft is legible, the states with commands
stand in the order of all states, the block that is open is that of the last state, and then, and
only then, lines of a block are expected. -/
structure Reader.Consistent (r : Reader) : Prop where
  legible : r.draft.Legible
  ordered : r.draft.commands.keys.Sublist r.draft.states.keys
  block : r.block = r.draft.states.keys.getLast?
  phase : r.phase = .state ↔ r.block.isSome = true

namespace Reader

variable {r next : Reader} {raw : List Char}

theorem consistent_empty : Consistent {} := by
  refine ⟨⟨?_, ?_, ?_⟩, List.nil_sublist _, rfl, by simp⟩ <;> intro e he <;>
    exact absurd he List.not_mem_nil

/-- Where the lines of a block are expected, the block of the current state is open. -/
theorem Consistent.block_eq (hr : r.Consistent) (hb : r.phase = .state) :
    r.block = some r.current := by
  obtain ⟨state, hstate⟩ := Option.isSome_iff_exists.mp (hr.phase.mp hb)
  rw [current, hstate, Option.getD_some]

theorem consistent_opened (hr : r.Consistent) {state : String} (hs : LegibleState state)
    (hnew : state ∉ r.draft.states.keys) : (r.opened state).Consistent := by
  have hkeys : (r.draft.states.insert state (∅ : Table)).keys = r.draft.states.keys ++ [state] := by
    rw [Dict.keys_insert, if_neg hnew]
  refine ⟨⟨hr.legible.vars, ?_, ?_⟩, ?_, ?_, by simp [opened]⟩
  · rintro ⟨state', table⟩ he
    rcases Dict.mem_entries_insert.mp he with ⟨rfl, rfl⟩ | ⟨-, he⟩
    · exact ⟨hs, fun e he => absurd he List.not_mem_nil⟩
    · exact hr.legible.states _ he
  · intro e he
    dsimp only [opened, withTable]
    rw [hkeys]
    exact (hr.legible.commands e he).imp_left (List.mem_append_left _)
  · dsimp only [opened, withTable]
    rw [hkeys]
    exact hr.ordered.trans (List.sublist_append_left _ _)
  · dsimp only [opened, withTable]
    rw [hkeys, List.getLast?_concat]

theorem consistent_withVar (hr : r.Consistent) {key : String} {value : Setting}
    (hk : LegibleKey key) (hv : LegibleSetting value) : (r.withVar key value).Consistent := by
  refine ⟨⟨?_, hr.legible.states, hr.legible.commands⟩, hr.ordered, hr.block, hr.phase⟩
  rintro ⟨key', value'⟩ he
  rcases Dict.mem_entries_insert.mp he with ⟨rfl, rfl⟩ | ⟨-, he⟩
  · exact ⟨hk, hv⟩
  · exact hr.legible.vars _ he

/-- A command goes to the last state, so the order of the states with commands is kept. -/
theorem consistent_addCommand (hr : r.Consistent) {state : String} (hs : r.block = some state)
    {c : Command} (hc : LegibleCommand c) : (r.addCommand state c).Consistent := by
  have hlast : r.draft.states.keys.getLast? = some state := by rw [← hr.block, hs]
  obtain ⟨earlier, hkeys⟩ := List.getLast?_eq_some_iff.mp hlast
  refine ⟨⟨hr.legible.vars, hr.legible.states, ?_⟩, ?_, hr.block, hr.phase⟩
  · rintro ⟨state', cs⟩ he
    rcases Dict.mem_entries_insert.mp he with ⟨rfl, rfl⟩ | ⟨-, he⟩
    · refine ⟨List.mem_of_getLast? hlast, by simp, fun c' hc' => ?_⟩
      rcases List.mem_append.mp hc' with hc' | hc'
      · cases hf : r.draft.commands.find? state' with
        | none => simp [hf] at hc'
        | some before =>
          rw [hf] at hc'
          exact (hr.legible.commands _ (Dict.find?_eq_some_iff.mp hf)).2.2 c' hc'
      · rwa [List.mem_singleton.mp hc']
    · exact hr.legible.commands _ he
  · dsimp only [addCommand]
    rw [Dict.keys_insert]
    split_ifs with hm
    · exact hr.ordered
    · -- the state has no command yet, so the others stand before it
      have hsub := hr.ordered
      rw [hkeys] at hsub ⊢
      obtain ⟨l₁, l₂, hl, h₁, h₂⟩ := List.sublist_append_iff.mp hsub
      rw [List.sublist_singleton] at h₂
      rcases h₂ with rfl | rfl
      · rw [hl, List.append_nil]
        exact h₁.append (List.Sublist.refl _)
      · exact absurd (hl ▸ List.mem_append_right _ (List.mem_singleton_self state)) hm

theorem consistent_withTable (hr : r.Consistent) {state : String} (hs : r.block = some state)
    {token : Token} {d : Destinations} (ht : LegibleToken token) (hd : LegibleDestinations d) :
    (r.withTable state (((r.draft.states.find? state).getD ∅).insert token d)).Consistent := by
  have hlast : r.draft.states.keys.getLast? = some state := by rw [← hr.block, hs]
  have hmem := List.mem_of_getLast? hlast
  have hkeys : ∀ t : Table, (r.draft.states.insert state t).keys = r.draft.states.keys := by
    intro t
    rw [Dict.keys_insert, if_pos hmem]
  obtain ⟨table, hfind⟩ := Dict.mem_iff_find?.mp (Dict.mem_iff_mem_keys.mpr hmem)
  have hstate := hr.legible.states _ (Dict.find?_eq_some_iff.mp hfind)
  rw [hfind, Option.getD_some]
  refine ⟨⟨hr.legible.vars, ?_, ?_⟩, ?_, ?_, hr.phase⟩
  · rintro ⟨state', table'⟩ he
    rcases Dict.mem_entries_insert.mp he with ⟨rfl, rfl⟩ | ⟨-, he⟩
    · refine ⟨hstate.1, ?_⟩
      rintro ⟨token', d'⟩ he
      rcases Dict.mem_entries_insert.mp he with ⟨rfl, rfl⟩ | ⟨-, he⟩
      · exact ⟨ht, hd⟩
      · exact hstate.2 _ he
    · exact hr.legible.states _ he
  · intro e he
    dsimp only [withTable]
    rw [hkeys]
    exact hr.legible.commands e he
  · dsimp only [withTable]
    rw [hkeys]
    exact hr.ordered
  · dsimp only [withTable]
    rw [hkeys]
    exact hr.block

/-- What the left-trimmed line starts with is what the trimmed line starts with. -/
theorem exists_cons_of_trim_ne_nil (hne : trim raw ≠ []) : ∃ c rest, trimLeft raw = c :: rest ∧
    isBlank c = false ∧ (trim raw).head? = some c := by
  obtain ⟨c, rest, hc⟩ : ∃ c rest, trimLeft raw = c :: rest := by
    refine List.exists_cons_of_ne_nil fun hnil => hne ?_
    rw [trim, hnil]
    rfl
  exact ⟨c, rest, hc, not_blank_of_head?_trimLeft (s := raw) (by rw [hc]; rfl),
    head?_trim (by rw [hc]; rfl)⟩

/-- **Reading a line keeps a reader consistent.** -/
theorem consistent_line (hr : r.Consistent) (hraw : Unbroken raw) (h : r.line raw = .ok next) :
    next.Consistent := by
  cases step_of_line h with
  | skip => exact hr
  | openState hk hne hres hnew =>
    exact consistent_opened hr (legibleState_of_header hraw.trim (trim_trim raw) hk hne hres) hnew
  | assign hk _ hread =>
    obtain ⟨-, -, hhash⟩ := ofTrimmed_eq_content hk
    obtain ⟨hkey, hvalue⟩ := legible_of_readAssignment hraw.trim (trim_trim raw) hhash hread
    exact consistent_withVar hr hkey hvalue
  | command _ hb hread =>
    exact consistent_addCommand hr (hr.block_eq hb) (legible_of_readCommand? hraw.trim hread)
  | transition hk hb hdollar hread =>
    obtain ⟨-, hne, hhash⟩ := ofTrimmed_eq_content hk
    obtain ⟨c, rest, hc, hblank, hhead⟩ := exists_cons_of_trim_ne_nil hne
    have hunbroken : Unbroken (trimLeft raw) := fun x hx => hraw x ((trimLeft_suffix raw).subset hx)
    rw [hhead] at hhash hdollar
    rw [hc] at hread hunbroken
    obtain ⟨token, d, htoken, hd, rfl⟩ := legible_of_readTransition hunbroken hblank
      (by simpa using hhash) (by simpa using hdollar) hread
    exact consistent_withTable hr (hr.block_eq hb) htoken hd

/-- **Reading lines keeps a reader consistent.** -/
theorem consistent_lines : ∀ {ls : List (List Char)} {r : Reader} {number : ℕ},
    r.Consistent → (∀ raw ∈ ls, Unbroken raw) → ∀ {after : Reader},
      r.lines number ls = (after, none) → after.Consistent
  | [], r, number, hr, _, after, h => by
    rw [lines, Prod.mk.injEq] at h
    rwa [← h.1]
  | raw :: ls, r, number, hr, hls, after, h => by
    rw [lines_cons] at h
    rcases hl : r.line raw with e | next
    · simp [hl] at h
    · simp only [hl] at h
      exact consistent_lines (consistent_line hr (hls raw List.mem_cons_self) hl)
        (fun l hm => hls l (List.mem_cons_of_mem _ hm)) h

end Reader

end Listing

end FiniteAutomata
