import FiniteAutomata.Proofs.Listing.Printed
import FiniteAutomata.Proofs.Producers.Validation

/-! # Reading a printed listing

The lines that are printed for legible parts are read block by block: the commands come back, and
each destination set comes back as what is read from its own text (`readAll_block_iff`,
`readAll_blocks_iff`). So a printed listing is read exactly if each destination set is, and what is
drafted differs from the program in the destination sets only, and in the order of the commands,
which is that of the states (`readAll_printLines_iff`). -/

namespace FiniteAutomata

open Text

namespace Listing

/-! ### Reading lines of text -/

namespace Reader

/-- Reads lines one after the other. -/
def readAll (r : Reader) (ls : List String) : Except Fault Reader :=
  ls.foldlM (fun r l => r.line l.toList) r

@[simp] theorem readAll_nil (r : Reader) : r.readAll [] = .ok r := rfl

theorem readAll_cons (r : Reader) (l : String) (ls : List String) :
    r.readAll (l :: ls) = (r.line l.toList).bind fun r => r.readAll ls := rfl

theorem readAll_append (r : Reader) (ls ls' : List String) :
    r.readAll (ls ++ ls') = (r.readAll ls).bind fun r => r.readAll ls' := List.foldlM_append

theorem readAll_cons_ok {r next : Reader} {l : String} (h : r.line l.toList = .ok next)
    (ls : List String) : r.readAll (l :: ls) = next.readAll ls := by rw [readAll_cons, h]; rfl

theorem readAll_append_ok {r next : Reader} {ls : List String} (h : r.readAll ls = .ok next)
    (ls' : List String) : r.readAll (ls ++ ls') = next.readAll ls' := by rw [readAll_append, h]; rfl

theorem readAll_eq_through (r : Reader) (ls : List String) :
    r.readAll ls = r.through (ls.map String.toList) := List.foldlM_map.symm

/-- Reading lines meets no fault exactly if one after the other can be read. -/
theorem lines_eq_iff {ls : List String} {r after : Reader} {number : ℕ} :
    r.lines number (ls.map String.toList) = (after, none) ↔ r.readAll ls = .ok after := by
  rw [lines_eq_none_iff, readAll_eq_through]

end Reader

/-! ### Commands and transitions of a block -/

variable {state : String}

/-- The reader with commands added to those of a state. -/
def Reader.withCommands (r : Reader) (state : String) (cs : List Command) : Reader :=
  let before := (r.draft.commands.find? state).getD []
  let commands := if cs = [] then r.draft.commands else r.draft.commands.insert state (before ++ cs)
  { r with draft := { r.draft with commands } }

theorem withCommands_addCommand (r : Reader) (state : String) (c : Command) (cs : List Command) :
    (r.addCommand state c).withCommands state cs = r.withCommands state (c :: cs) := by
  cases cs <;> simp [Reader.withCommands, Reader.addCommand]

theorem readAll_commands : ∀ {cs : List Command} {r : Reader},
    (∀ c ∈ cs, LegibleCommand c) → r.Opens state →
      r.readAll (cs.map fun c => "\t" ++ c.text) = .ok (r.withCommands state cs)
  | [], r, _, _ => rfl
  | c :: cs, r, hcs, hr => by
    rw [List.map_cons, Reader.readAll_cons_ok (line_command (hcs c List.mem_cons_self) hr),
      readAll_commands (r := r.addCommand state c)
        (fun c' hc' => hcs c' (List.mem_cons_of_mem _ hc')) hr, withCommands_addCommand]

/-- An entry of a table comes back under the same token, as what is read from its destination set.
-/
def RereadEntry (e e' : Token × Destinations) : Prop :=
  e.1 = e'.1 ∧ readDestinations (printDestinations e.2).toList = .ok e'.2

/-- A table comes back as another one: the same tokens, and what is read from each destination
set. -/
def RereadTable (t t' : Table) : Prop := List.Forall₂ RereadEntry t.entries t'.entries

/-- Every weight of a table reads back. -/
def TableReadsBack (t : Table) : Prop :=
  ∀ e ∈ t.entries, ∀ x ∈ e.2.entries, Decimal.ReadsBack x.2

theorem keys_of_forall₂ {α β γ : Type*} {R : α × β → α × γ → Prop}
    (hR : ∀ e e', R e e' → e.1 = e'.1) {l : List (α × β)} {l' : List (α × γ)}
    (h : List.Forall₂ R l l') : Entries.keys l = Entries.keys l' := by
  induction h with
  | nil => rfl
  | cons hxy _ ih => exact congrArg₂ List.cons (hR _ _ hxy) ih

theorem readAll_transitions_iff (after : Reader) : ∀ {es : List (Token × Destinations)} {r : Reader}
    {table : Table}, (∀ e ∈ es, LegibleToken e.1 ∧ LegibleDestinations e.2) →
      (∀ e ∈ es, ∀ x ∈ e.2.entries, Decimal.ReadsBack x.2) → r.Opens state →
      r.draft.states.find? state = some table → (table.keys ++ Entries.keys es).Nodup →
      (r.readAll (es.map fun e => "\t" ++ printTransition e.1 e.2) = .ok after ↔
        ∃ es', List.Forall₂ RereadEntry es es' ∧
          after = r.withTable state (table.insertAll es'))
  | [], r, table, _, _, _, hfind, _ => by
    have hsame : r.withTable state table = r := by
      simp [Reader.withTable, Dict.insert_of_find? hfind]
    constructor
    · intro h
      obtain rfl := Except.ok.inj h
      exact ⟨[], .nil, hsame.symm⟩
    · rintro ⟨es', hes', rfl⟩
      obtain rfl := List.forall₂_nil_left_iff.mp hes'
      rw [Dict.insertAll_nil, hsame]
      rfl
  | (token, d) :: es, r, table, hes, hw, hr, hfind, hn => by
    have hnew : token ∉ table.keys := fun hk =>
      (List.disjoint_of_nodup_append hn) hk (by simp [Entries.keys])
    obtain ⟨ht, hd⟩ := hes _ List.mem_cons_self
    have hline := line_transition ht hd (hw _ List.mem_cons_self) hr hfind hnew
    rw [List.map_cons, Reader.readAll_cons, hline]
    cases hread : readDestinations (printDestinations d).toList with
    | error e =>
      refine ⟨fun h => absurd h (by simp [Except.map, Except.bind]), ?_⟩
      rintro ⟨es', hes', -⟩
      cases hes' with
      | cons he _ => exact absurd (he.2.symm.trans hread) (by simp)
    | ok d' =>
      have hfind' : (r.withTable state (table.insert token d')).draft.states.find? state =
          some (table.insert token d') := Dict.find?_insert_self _ _ _
      -- one more token is in the table, and those of the other lines are still new
      have ih := readAll_transitions_iff after
        (fun e he => hes e (List.mem_cons_of_mem _ he))
        (fun e he => hw e (List.mem_cons_of_mem _ he))
        (r := r.withTable state (table.insert token d')) hr hfind'
        (by rw [Dict.keys_insert, if_neg hnew, List.append_assoc]; simpa [Entries.keys] using hn)
      simp only [Except.map, Except.bind]
      rw [ih]
      constructor
      · rintro ⟨es', hes', rfl⟩
        exact ⟨(token, d') :: es', .cons ⟨rfl, hread⟩ hes', by simp⟩
      · rintro ⟨es', hes', rfl⟩
        cases hes' with
        | @cons _ e' _ es' he hes' =>
          obtain ⟨h1, h2⟩ := he
          obtain rfl := Except.ok.inj (hread.symm.trans h2)
          obtain rfl := h1
          exact ⟨es', hes', by simp⟩

/-! ### Blocks -/

/-- The reader after the block of a new state. -/
def Reader.afterBlock (r : Reader) (state : String) (cs : List Command) (table : Table) : Reader :=
  { draft :=
      { r.draft with
        states := r.draft.states.insert state table
        commands := if cs = [] then r.draft.commands else r.draft.commands.insert state cs }
    phase := .state
    block := some state }

/-- **A printed block is read** exactly if each destination set in it is; the table of the state is
what was read. -/
theorem readAll_block_iff (after : Reader) {p : Program} {r : Reader} {table : Table}
    (hs : LegibleState state) (ht : LegibleTable table) (hw : TableReadsBack table)
    (hcs : ∀ c ∈ p.commandsAt (.named state), LegibleCommand c)
    (hstates : state ∉ r.draft.states.keys) (hcommands : state ∉ r.draft.commands.keys) :
    r.readAll (printBlock p state table) = .ok after ↔
      ∃ table', RereadTable table table' ∧
        after = r.afterBlock state (p.commandsAt (.named state)) table' := by
  have hnone : r.draft.commands.find? state = none := Entries.find?_eq_none_iff.mpr hcommands
  have hblock : ∀ t, ((r.opened state).withCommands state (p.commandsAt (.named state))).withTable
      state t = r.afterBlock state (p.commandsAt (.named state)) t := by
    intro t
    simp [Reader.withTable, Reader.withCommands, Reader.opened, Reader.afterBlock, hnone]
  have hfind : ((r.opened state).withCommands state
      (p.commandsAt (.named state))).draft.states.find? state = some ∅ :=
    Dict.find?_insert_self _ _ _
  have hiff := readAll_transitions_iff after
    (r := (r.opened state).withCommands state (p.commandsAt (.named state))) ht hw ⟨rfl, rfl⟩ hfind
    (by simpa using table.nodup)
  rw [printBlock, List.cons_append, Reader.readAll_cons_ok (line_header hs hstates),
    Reader.readAll_append_ok (readAll_commands hcs ⟨rfl, rfl⟩), hiff]
  constructor
  · rintro ⟨es', hes', rfl⟩
    have hkeys : Entries.keys table.entries = Entries.keys es' :=
      keys_of_forall₂ (fun _ _ he => he.1) hes'
    have hentries : ((∅ : Table).insertAll es').entries = es' := by
      rw [Dict.entries_insertAll (by simpa [← hkeys] using table.nodup)]
      rfl
    exact ⟨_, by rw [RereadTable, hentries]; exact hes', hblock _⟩
  · rintro ⟨table', hread, rfl⟩
    exact ⟨table'.entries, hread, by rw [hblock, Dict.insertAll_entries]⟩

/-- A state comes back under the same name, with a table that is what was read. -/
def RereadState (e e' : String × Table) : Prop := e.1 = e'.1 ∧ RereadTable e.2 e'.2

/-- The reader after the blocks of new states. -/
def Reader.afterBlocks (r : Reader) (p : Program) (l : List (String × Table)) : Reader :=
  l.foldl (fun r e => r.afterBlock e.1 (p.commandsAt (.named e.1)) e.2) r

/-- A state that is new before the block of another one is new after it. -/
theorem not_mem_afterBlock {r : Reader} {name : String} (cs : List Command) (table : Table)
    (hne : name ≠ state) (hstates : name ∉ r.draft.states.keys)
    (hcommands : name ∉ r.draft.commands.keys) :
    name ∉ (r.afterBlock state cs table).draft.states.keys ∧
      name ∉ (r.afterBlock state cs table).draft.commands.keys := by
  have hinsert : ∀ {β : Type} {d : Dict String β} (v : β), name ∉ d.keys →
      name ∉ (d.insert state v).keys := by
    intro β d v hd hmem
    rw [← Dict.mem_iff_mem_keys, Dict.mem_insert] at hmem
    exact hmem.elim hne fun h => hd (Dict.mem_iff_mem_keys.mp h)
  refine ⟨hinsert table hstates, ?_⟩
  dsimp only [Reader.afterBlock]
  split_ifs
  · exact hcommands
  · exact hinsert cs hcommands

/-- **Printed blocks are read** exactly if each destination set in them is. -/
theorem readAll_blocks_iff (after : Reader) {p : Program}
    (hcs : ∀ state, ∀ c ∈ p.commandsAt (.named state), LegibleCommand c) :
    ∀ {l : List (String × Table)} {r : Reader},
      (∀ e ∈ l, LegibleState e.1 ∧ LegibleTable e.2 ∧ TableReadsBack e.2) →
      (∀ e ∈ l, e.1 ∉ r.draft.states.keys ∧ e.1 ∉ r.draft.commands.keys) →
      (Entries.keys l).Nodup →
      (r.readAll (l.flatMap fun e => printBlock p e.1 e.2) = .ok after ↔
        ∃ l', List.Forall₂ RereadState l l' ∧ after = r.afterBlocks p l')
  | [], r, _, _, _ => by
    constructor
    · intro h
      obtain rfl := Except.ok.inj h
      exact ⟨[], .nil, rfl⟩
    · rintro ⟨l', hl', rfl⟩
      obtain rfl := List.forall₂_nil_left_iff.mp hl'
      rfl
  | (state, table) :: l, r, hl, hnew, hn => by
    obtain ⟨hs, ht, hw⟩ := hl _ List.mem_cons_self
    obtain ⟨hstates, hcommands⟩ := hnew _ List.mem_cons_self
    obtain ⟨hnot, hrest⟩ := List.nodup_cons.mp hn
    have hblock := fun next => readAll_block_iff next (p := p) hs ht hw (hcs state)
      hstates hcommands
    have hne : ∀ e ∈ l, e.1 ≠ state := fun e he heq => hnot (heq ▸ List.mem_map.mpr ⟨e, he, rfl⟩)
    have hnew' := fun t e he => not_mem_afterBlock (p.commandsAt (.named state)) t (hne e he)
      (hnew e (List.mem_cons_of_mem _ he)).1 (hnew e (List.mem_cons_of_mem _ he)).2
    have ih := fun t => readAll_blocks_iff after hcs
      (r := r.afterBlock state (p.commandsAt (.named state)) t)
      (fun e he => hl e (List.mem_cons_of_mem _ he)) (hnew' t) hrest
    rw [List.flatMap_cons, Reader.readAll_append]
    constructor
    · intro h
      rcases hb : r.readAll (printBlock p state table) with e | next
      · simp [hb, Except.bind] at h
      · obtain ⟨t', ht', rfl⟩ := (hblock next).mp hb
        rw [hb] at h
        obtain ⟨l', hl', rfl⟩ := (ih t').mp h
        exact ⟨(state, t') :: l', .cons ⟨rfl, ht'⟩ hl', rfl⟩
    · rintro ⟨l', hl', rfl⟩
      cases hl' with
      | @cons _ e' _ l' he hl' =>
        obtain ⟨state', t'⟩ := e'
        obtain ⟨rfl, ht'⟩ := he
        rw [(hblock _).mpr ⟨t', ht', rfl⟩]
        exact (ih t').mpr ⟨l', hl', rfl⟩

/-! ### What the blocks draft -/

theorem states_afterBlocks (p : Program) : ∀ (l : List (String × Table)) (r : Reader),
    (r.afterBlocks p l).draft.states = r.draft.states.insertAll l
  | [], _ => rfl
  | _ :: l, _ => states_afterBlocks p l _

theorem vars_afterBlocks (p : Program) : ∀ (l : List (String × Table)) (r : Reader),
    (r.afterBlocks p l).draft.vars = r.draft.vars
  | [], _ => rfl
  | _ :: l, _ => vars_afterBlocks p l _

/-- The commands at states, where there are any. -/
def commandEntries (p : Program) (states : List String) : List (String × List Command) :=
  states.filterMap fun state => (p.commands.find? state).map fun cs => (state, cs)

/-- The blocks bring back the commands of their states, as no state has an empty list of them. -/
theorem commands_afterBlocks {p : Program} (hp : ∀ e ∈ p.commands.entries, e.2 ≠ []) :
    ∀ (l : List (String × Table)) (r : Reader), (r.afterBlocks p l).draft.commands =
      r.draft.commands.insertAll (commandEntries p (Entries.keys l))
  | [], _ => rfl
  | (state, table) :: l, r => by
    refine (commands_afterBlocks hp l _).trans ?_
    dsimp only [Reader.afterBlock, commandEntries, Entries.keys, List.map_cons]
    cases hf : p.commands.find? state with
    | none => simp [Program.commandsAt, hf]
    | some cs =>
      have hne : cs ≠ [] := hp _ (Dict.find?_eq_some_iff.mp hf)
      simp [Program.commandsAt, hf, hne]

end Listing

/-- The draft that a program was made from. -/
def Program.toDraft (p : Program) : Draft := ⟨p.states, p.commands, p.vars⟩

/-- A program that a listing can show: its parts are legible, the states with commands stand in the
order of all states, and its own draft gives it. -/
structure Program.Legible (p : Program) : Prop where
  parts : p.toDraft.Legible
  ordered : p.commands.keys.Sublist p.states.keys
  resolves : p.toDraft.Resolves p

/-- Every weight of a program reads back. -/
def Program.WeightsReadBack (p : Program) : Prop :=
  ∀ e ∈ p.states.entries, Listing.TableReadsBack e.2

instance (p : Program) : Decidable p.WeightsReadBack := by
  unfold Program.WeightsReadBack Listing.TableReadsBack Decimal.ReadsBack
  infer_instance

namespace Listing

variable {p : Program}

/-- The commands of a program in the order of its states. -/
def orderedCommands (p : Program) : Dict String (List Command) :=
  (∅ : Dict String (List Command)).insertAll (commandEntries p p.states.keys)

/-- The commands of a legible program stand in the order of its states. -/
theorem orderedCommands_eq (hp : p.Legible) : orderedCommands p = p.commands := by
  rw [orderedCommands, commandEntries, Dict.filterMap_find? hp.ordered p.states.nodup,
    Dict.insertAll_entries]

theorem legibleCommand_of_commandsAt (hp : p.toDraft.Legible) (state : String) :
    ∀ c ∈ p.commandsAt (.named state), LegibleCommand c := by
  intro c hc
  cases hf : p.commands.find? state with
  | none => simp [Program.commandsAt, hf] at hc
  | some cs =>
    simp only [Program.commandsAt, hf, Option.getD_some] at hc
    exact (hp.commands _ (Dict.find?_eq_some_iff.mp hf)).2.2 c hc

/-! ### Whole listings -/

/-- An assignment of a literal whose line ends in its only colon and holds no tab, as a header
does. -/
def HeaderClash (p : Program) : Prop :=
  ∃ key text, (key, Setting.literal text) ∈ p.vars.entries ∧
    (printLiteral key text).toList.getLast? = some ':' ∧
    (printLiteral key text).toList.count ':' = 1 ∧ '\t' ∉ (printLiteral key text).toList

/-- An assignment of an array ends in a bracket, so it is never taken for a header. -/
theorem headerClash_iff : HeaderClash p ↔
    ∃ e ∈ p.vars.entries, isHeader (printSetting e.1 e.2).toList = true := by
  constructor
  · rintro ⟨key, text, he, hline⟩
    exact ⟨_, he, isHeader_eq_true.mpr hline⟩
  · rintro ⟨⟨key, value⟩, he, hh⟩
    cases value with
    | literal text =>
      exact ⟨key, text, he, isHeader_eq_true.mp hh⟩
    | array items =>
      rw [isHeader_of_getLast?_ne] at hh
      · simp at hh
      · rw [toList_printSetting, valueText, ← List.cons_append, ← List.cons_append,
          ← List.append_assoc, List.getLast?_concat]
        decide

instance : Decidable (HeaderClash p) := decidable_of_iff _ headerClash_iff.symm

/-- A program whose draft gives it has all assignments that a reader needs. -/
theorem printVars_eq (hp : p.toDraft.Resolves p) :
    printVars p = p.vars.entries.map fun e => printSetting e.1 e.2 := by
  have hmem : ∀ key, p.vars.find? key ≠ none → ¬ key ∉ p.vars := by
    intro key h hn
    exact hn (Option.isSome_iff_ne_none.mpr h)
  have hstart : ¬ "start" ∉ p.vars := by
    refine hmem _ fun h => ?_
    have := hp.start
    simp [Draft.resolveStart, Program.toDraft, h] at this
  have haccept : ¬ "accept" ∉ p.vars := by
    refine hmem _ fun h => ?_
    have := hp.accept
    simp [Draft.resolveAccept, Program.toDraft, h] at this
  have hlang : (p.declaresAlphabet && decide ("lang" ∉ p.vars)) = false := by
    cases h : p.vars.find? "lang" with
    | none =>
      have := hp.alphabet
      simp only [Draft.resolveAlphabet, Program.toDraft, h, Except.ok.injEq, Prod.mk.injEq] at this
      simp [← this.2]
    | some v => simp [hmem "lang" (by simp [h])]
  have hmode : (decide ("mode" ∉ p.vars) && decide (p.mode ≠ .dfa)) = false := by
    cases h : p.vars.find? "mode" with
    | none =>
      have := hp.mode
      simp only [Draft.resolveMode, Program.toDraft, h, Except.ok.injEq] at this
      simp [← this]
    | some v => simp [hmem "mode" (by simp [h])]
  rw [printVars, if_neg hstart, if_neg haccept, hlang, hmode]
  simp

theorem readAll_settings : ∀ {l : List (String × Setting)} {r : Reader},
    (∀ e ∈ l, LegibleKey e.1 ∧ LegibleSetting e.2) →
    (∀ e ∈ l, isHeader (printSetting e.1 e.2).toList = false) → r.phase = .general →
      r.readAll (l.map fun e => printSetting e.1 e.2) =
        .ok { r with draft := { r.draft with vars := r.draft.vars.insertAll l } }
  | [], _, _, _, _ => rfl
  | e :: l, r, hl, hh, hr => by
    obtain ⟨hk, hv⟩ := hl e List.mem_cons_self
    rw [List.map_cons, Reader.readAll_cons_ok (line_setting hk hv hr (hh e List.mem_cons_self))]
    exact readAll_settings (fun e' he => hl e' (List.mem_cons_of_mem _ he))
      (fun e' he => hh e' (List.mem_cons_of_mem _ he)) hr

/-- A program whose listing shows it as it is: there is a state, its parts are legible, and no
assignment is added. -/
structure Shown (p : Program) : Prop where
  populated : p.states.entries ≠ []
  parts : p.toDraft.Legible
  settings : printVars p = p.vars.entries.map fun e => printSetting e.1 e.2

theorem shown_of_legible (hp : p.Legible) : Shown p where
  populated := by
    have hvalid := Program.flaw?_eq_none_iff.mp hp.resolves.unflawed
    obtain ⟨table, hfind⟩ := Dict.mem_iff_find?.mp hvalid.start
    exact List.ne_nil_of_mem (Dict.find?_eq_some_iff.mp hfind)
  parts := hp.parts
  settings := printVars_eq hp.resolves

/-- What the blocks of a program draft, if they bring back other tables. -/
theorem draft_afterBlocks (hp : p.toDraft.Legible) (states : Dict String Table)
    (hkeys : p.states.keys = states.keys) :
    (Reader.afterBlocks { draft := { vars := p.vars } } p states.entries).draft =
      ⟨states, orderedCommands p, p.vars⟩ := by
  have hne : ∀ e ∈ p.commands.entries, e.2 ≠ [] := fun e he => (hp.commands e he).2.1
  have hstates := states_afterBlocks p states.entries { draft := { vars := p.vars } }
  have hcommands := commands_afterBlocks hne states.entries { draft := { vars := p.vars } }
  have hvars := vars_afterBlocks p states.entries { draft := { vars := p.vars } }
  rw [Dict.insertAll_entries] at hstates
  have hsame : (∅ : Dict String (List Command)).insertAll (commandEntries p states.keys) =
      orderedCommands p := by rw [orderedCommands, hkeys]
  exact congr (congrArg₂ Draft.mk hstates (hcommands.trans hsame)) hvars

/-- **A printed listing is read** exactly if each destination set in it is, as long as no assignment
looks like a header; the draft differs from that of the program in what was read from the
destination sets, and in the order of the commands. -/
theorem readAll_printLines_iff (hp : Shown p) (hw : p.WeightsReadBack) (hh : ¬ HeaderClash p)
    {d : Draft} : (∃ after, Reader.readAll {} (printLines p) = .ok after ∧ after.draft = d) ↔
      ∃ states : Dict String Table, List.Forall₂ RereadState p.states.entries states.entries ∧
        d = ⟨states, orderedCommands p, p.vars⟩ := by
  have hsettings := readAll_settings (r := {}) hp.parts.vars (fun e he => by
    by_contra hne
    exact hh (headerClash_iff.mpr ⟨e, he, by simpa using hne⟩)) rfl
  have hvars : (∅ : Dict String Setting).insertAll p.toDraft.vars.entries = p.vars :=
    Dict.insertAll_entries _
  have hblocks := fun after => readAll_blocks_iff after
    (legibleCommand_of_commandsAt hp.parts) (l := p.states.entries)
    (r := { draft := { vars := p.vars } })
    (fun e he => ⟨(hp.parts.states e he).1, (hp.parts.states e he).2, hw e he⟩)
    (fun e _ => ⟨by simp, by simp⟩) p.states.nodup
  have hread : Reader.readAll {} (printLines p) =
      Reader.readAll { draft := { vars := p.vars } }
        (p.states.entries.flatMap fun e => printBlock p e.1 e.2) := by
    rw [printLines, hp.settings]
    refine (Reader.readAll_append_ok hsettings _).trans ?_
    rw [hvars]
  rw [hread]
  constructor
  · rintro ⟨after, ha, rfl⟩
    obtain ⟨l', hl', rfl⟩ := (hblocks after).mp ha
    have hkeys : Entries.keys p.states.entries = Entries.keys l' :=
      keys_of_forall₂ (fun _ _ he => he.1) hl'
    have hn : (Entries.keys l').Nodup := hkeys ▸ p.states.nodup
    exact ⟨⟨l', hn⟩, hl', draft_afterBlocks hp.parts ⟨l', hn⟩ hkeys⟩
  · rintro ⟨states, hstates, rfl⟩
    exact ⟨_, (hblocks _).mpr ⟨states.entries, hstates, rfl⟩,
      draft_afterBlocks hp.parts states (keys_of_forall₂ (fun _ _ he => he.1) hstates)⟩

end Listing

end FiniteAutomata
