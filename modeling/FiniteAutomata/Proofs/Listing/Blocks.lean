import FiniteAutomata.Proofs.Listing.Rereading
import FiniteAutomata.Proofs.Simulator.Reordered

/-! # Blocks in another order

The lines of a listing are its general section and the blocks of its states, each from a header to
the next one (`cutBlocks`). What a block says depends on nothing before it (`Block.ofLines?`): it is
read after other blocks as it is on its own, and adds its state to the reader, if the reader does
not have that state yet (`Reader.through_block_iff`). So blocks are read in every order or in none,
and what they draft is the same but for the order (`Reader.through_blocks_iff`,
`Reader.lines_shuffled`). Texts whose blocks stand in another order have the same program but for
orders that no run depends on, or both have none (`parse_shuffled`). -/

namespace FiniteAutomata.Listing

open Text

variable {raw : List Char} {ls block : List (List Char)} {blocks : List (List (List Char))}

/-! ### Sections -/

/-- Whether a line is the header of a block. -/
def opensBlock (raw : List Char) : Bool :=
  match Line.ofTrimmed (trim raw) with
  | .header _ => true
  | _ => false

/-- The general section and the blocks of lines: a block goes from a header to the next one. -/
def cutBlocks : List (List Char) → List (List Char) × List (List (List Char))
  | [] => ([], [])
  | raw :: rest =>
    match cutBlocks rest with
    | (before, blocks) =>
      if opensBlock raw then ([], (raw :: before) :: blocks) else (raw :: before, blocks)

/-- Two texts with the same general section and the same blocks, in any order. -/
structure Shuffled (s t : List Char) : Prop where
  general : (cutBlocks (lines s)).1 = (cutBlocks (lines t)).1
  blocks : (cutBlocks (lines s)).2.Perm (cutBlocks (lines t)).2

/-- A header and lines that are none. -/
def IsBlock (block : List (List Char)) : Prop :=
  ∃ header rest, block = header :: rest ∧ opensBlock header = true ∧
    ∀ raw ∈ rest, opensBlock raw = false

theorem Shuffled.symm {s t : List Char} (h : Shuffled s t) : Shuffled t s :=
  ⟨h.general.symm, h.blocks.symm⟩

theorem exists_header_of_opensBlock (h : opensBlock raw = true) :
    ∃ name, Line.ofTrimmed (trim raw) = .header name := by
  unfold opensBlock at h
  split at h
  · next name hname => exact ⟨name, hname⟩
  · cases h

/-- Cutting lines into sections loses nothing, and cuts where the headers are. -/
theorem cutBlocks_spec : ∀ ls : List (List Char),
    (cutBlocks ls).1 ++ (cutBlocks ls).2.flatten = ls ∧
      (∀ raw ∈ (cutBlocks ls).1, opensBlock raw = false) ∧ ∀ block ∈ (cutBlocks ls).2, IsBlock block
  | [] => ⟨rfl, by simp [cutBlocks], by simp [cutBlocks]⟩
  | raw :: rest => by
    obtain ⟨hall, hgeneral, hblocks⟩ := cutBlocks_spec rest
    rcases hc : cutBlocks rest with ⟨before, blocks⟩
    rw [hc] at hall hgeneral hblocks
    rw [cutBlocks, hc]
    cases hopens : opensBlock raw with
    | true =>
      refine ⟨congrArg (raw :: ·) hall, fun _ h => absurd h List.not_mem_nil, ?_⟩
      intro block hmem
      rcases List.mem_cons.mp hmem with rfl | hmem
      · exact ⟨raw, before, rfl, hopens, hgeneral⟩
      · exact hblocks block hmem
    | false =>
      refine ⟨congrArg (raw :: ·) hall, fun line hmem => ?_, hblocks⟩
      rcases List.mem_cons.mp hmem with rfl | hmem
      · exact hopens
      · exact hgeneral line hmem

/-! ### What a block says -/

/-- A block: the name of its state, its commands and its table. -/
structure Block where
  state : String
  commands : List Command := []
  table : Table := ∅

namespace Block

variable {b b' : Block}

/-- Reads one more line of a block. -/
def line (b : Block) (raw : List Char) : Except Fault Block :=
  match Line.ofTrimmed (trim raw) with
  | .content text =>
    if text.head? = some '$' then
      match readCommand? text with
      | none => .error .malformedCommand
      | some c => .ok { b with commands := b.commands ++ [c] }
    else (readTransition b.state b.table (trimLeft raw)).map fun table => { b with table }
  | _ => .ok b

/-- Reads the lines of a block one after the other. -/
def through (b : Block) (ls : List (List Char)) : Except Fault Block := ls.foldlM line b

/-- What a block says: a header, and what is below it. -/
def ofLines? : List (List Char) → Option Block
  | [] => none
  | header :: rest =>
    match Line.ofTrimmed (trim header) with
    | .header name =>
      if name.isEmpty || isReserved (String.ofList name) then none
      else (through ⟨String.ofList name, [], ∅⟩ rest).toOption
    | _ => none

/-- The entry of a block among the states. -/
def stateEntry (b : Block) : String × Table := (b.state, b.table)

/-- The entry of a block among the commands, if it has commands. -/
def commandEntry? (b : Block) : Option (String × List Command) :=
  if b.commands = [] then none else some (b.state, b.commands)

theorem state_line (h : b.line raw = .ok b') : b'.state = b.state := by
  unfold line at h
  split at h
  · split_ifs at h with hdollar
    · split at h
      · cases h
      · cases h
        rfl
    · rcases ht : readTransition b.state b.table (trimLeft raw) with fault | table
      · rw [ht] at h
        cases h
      · rw [ht] at h
        cases h
        rfl
  · cases h
    rfl

end Block

namespace Reader

variable {r next : Reader} {b : Block}

/-! ### Blocks are read as on their own -/

/-- The reader after a block of a new state. -/
def after (r : Reader) (b : Block) : Reader := r.afterBlock b.state b.commands b.table

/-- Nothing is known of a state. -/
structure Lacks (r : Reader) (state : String) : Prop where
  states : state ∉ r.draft.states.keys
  commands : state ∉ r.draft.commands.keys

/-- **A line below a header is read as on its own.** -/
theorem line_after (hnew : r.Lacks b.state) (hraw : opensBlock raw = false) :
    (r.after b).line raw = (b.line raw).map r.after := by
  have hnone : r.draft.commands.find? b.state = none := Entries.find?_eq_none_iff.mpr hnew.commands
  have hcurrent : (r.after b).current = b.state := rfl
  have htable : ((r.after b).draft.states.find? b.state).getD ∅ = b.table := by
    simp [after, afterBlock]
  have hcommand : ∀ c, (r.after b).addCommand b.state c =
      r.after { b with commands := b.commands ++ [c] } := by
    intro c
    by_cases hempty : b.commands = []
    · simp [addCommand, after, afterBlock, hempty, hnone]
    · simp [addCommand, after, afterBlock, hempty]
  have htransition : ∀ table, (r.after b).withTable b.state table =
      r.after { b with table } := by
    intro table
    simp [withTable, after, afterBlock]
  have hphase : (r.after b).phase = .state := rfl
  unfold Reader.line Block.line
  rw [Handler.line_eq]
  unfold opensBlock at hraw
  cases hk : Line.ofTrimmed (trim raw) with
  | skipped => rfl
  | header name =>
    rw [hk] at hraw
    cases hraw
  | content text =>
    rw [hphase]
    dsimp only [Handler.blockLine]
    split_ifs with hdollar
    · rw [Handler.command_eq, hcurrent]
      cases readCommand? text with
      | none => rfl
      | some c => exact congrArg Except.ok (hcommand c)
    · rw [Handler.transition_eq, hcurrent, htable]
      cases readTransition b.state b.table (trimLeft raw) with
      | error fault => rfl
      | ok table => exact congrArg Except.ok (htransition table)

theorem through_after : ∀ {ls : List (List Char)} {b : Block}, r.Lacks b.state →
    (∀ raw ∈ ls, opensBlock raw = false) → (r.after b).through ls = (b.through ls).map r.after
  | [], _, _, _ => rfl
  | raw :: ls, b, hnew, hls => by
    have hline := line_after hnew (hls raw List.mem_cons_self)
    rw [Block.through, List.foldlM_cons]
    cases hb : b.line raw with
    | error fault =>
      rw [hb] at hline
      rw [through, List.foldlM_cons, hline]
      rfl
    | ok b' =>
      rw [hb] at hline
      have hnew' : r.Lacks b'.state := by rwa [Block.state_line hb]
      rw [through_cons_ok hline]
      exact through_after hnew' fun raw hmem => hls raw (List.mem_cons_of_mem _ hmem)

theorem through_state : ∀ {ls : List (List Char)} {b b' : Block}, b.through ls = .ok b' →
    b'.state = b.state
  | [], b, b', h => by
    obtain rfl : b = b' := Except.ok.inj h
    rfl
  | raw :: ls, b, b', h => by
    rw [Block.through, List.foldlM_cons] at h
    cases hb : b.line raw with
    | error fault => rw [hb] at h; cases h
    | ok b₁ =>
      rw [hb] at h
      exact (through_state h).trans (Block.state_line hb)

/-- A header opens the block of its state, unless that has no name, a reserved one, or one that is
known. -/
theorem line_header_iff {name : List Char} (h : Line.ofTrimmed (trim raw) = .header name) :
    r.line raw = .ok next ↔
      (name.isEmpty || isReserved (String.ofList name)) = false ∧
        String.ofList name ∉ r.draft.states.keys ∧ next = r.after ⟨String.ofList name, [], ∅⟩ := by
  unfold Reader.line
  rw [Handler.line_eq, h]
  dsimp only
  rw [Handler.openState_eq, ← Dict.mem_iff_mem_keys]
  split_ifs with hempty hreserved hknown
  · simp [hempty]
  · simp [hreserved]
  · simp [hknown]
  · have hopened : r.opened (String.ofList name) = r.after ⟨String.ofList name, [], ∅⟩ := rfl
    simp [hempty, hreserved, hknown, hopened, eq_comm]

/-- The states with commands are among the states. -/
def Covers (r : Reader) : Prop :=
  ∀ state, state ∈ r.draft.commands.keys → state ∈ r.draft.states.keys

theorem Covers.lacks (hr : r.Covers) {state : String} (h : state ∉ r.draft.states.keys) :
    r.Lacks state := ⟨h, fun hmem => h (hr state hmem)⟩

theorem Covers.after (hr : r.Covers) (b : Block) : (r.after b).Covers := by
  intro state hstate
  dsimp only [Reader.after, afterBlock] at hstate ⊢
  rw [← Dict.mem_iff_mem_keys, Dict.mem_insert, Dict.mem_iff_mem_keys]
  split_ifs at hstate with hempty
  · exact Or.inr (hr state hstate)
  · rw [← Dict.mem_iff_mem_keys, Dict.mem_insert, Dict.mem_iff_mem_keys] at hstate
    exact hstate.imp_right (hr state)

/-- **A block is read** exactly if it says something on its own and its state is new. -/
theorem through_block_iff (hr : r.Covers) (hblock : IsBlock block) :
    r.through block = .ok next ↔ ∃ b, Block.ofLines? block = some b ∧
      b.state ∉ r.draft.states.keys ∧ next = r.after b := by
  obtain ⟨header, rest, rfl, hopens, hrest⟩ := hblock
  obtain ⟨name, hname⟩ := exists_header_of_opensBlock hopens
  have hheader := fun next => (line_header_iff hname : r.line header = .ok next ↔ _)
  rw [Block.ofLines?, hname]
  dsimp only
  constructor
  · intro h
    obtain ⟨opened, hl, hthrough⟩ := exists_line_of_through_cons h
    obtain ⟨hfree, hnew, rfl⟩ := (hheader opened).mp hl
    rw [through_after (hr.lacks hnew) hrest] at hthrough
    rw [hfree]
    cases hb : Block.through ⟨String.ofList name, [], ∅⟩ rest with
    | error fault => rw [hb] at hthrough; cases hthrough
    | ok b =>
      rw [hb] at hthrough
      exact ⟨b, rfl, through_state hb ▸ hnew, (Except.ok.inj hthrough).symm⟩
  · rintro ⟨b, hb, hnew, rfl⟩
    split_ifs at hb with hfree
    obtain ⟨b', hb', rfl⟩ :
        ∃ b', Block.through ⟨String.ofList name, [], ∅⟩ rest = .ok b' ∧ b' = b := by
      cases hb' : Block.through ⟨String.ofList name, [], ∅⟩ rest with
      | error fault => rw [hb'] at hb; cases hb
      | ok b' => rw [hb'] at hb; exact ⟨b', rfl, Option.some.inj hb⟩
    have hnew' : String.ofList name ∉ r.draft.states.keys := by rwa [through_state hb'] at hnew
    rw [through_cons_ok ((hheader _).mpr ⟨by simpa using hfree, hnew', rfl⟩),
      through_after (hr.lacks hnew') hrest, hb']
    rfl

/-- **Blocks are read** exactly if each of them says something on its own, and no state comes
twice. -/
theorem through_blocks_iff : ∀ {blocks : List (List (List Char))} {r : Reader}, r.Covers →
    (∀ block ∈ blocks, IsBlock block) →
      (r.through blocks.flatten = .ok next ↔
        ∃ bs, List.Forall₂ (fun block b => Block.ofLines? block = some b) blocks bs ∧
          (r.draft.states.keys ++ bs.map Block.state).Nodup ∧ next = bs.foldl after r)
  | [], r, _, _ => by
    constructor
    · intro h
      have hnodup : (r.draft.states.keys ++ []).Nodup := by
        rw [List.append_nil]
        exact r.draft.states.nodup
      exact ⟨[], .nil, hnodup, (Except.ok.inj h).symm⟩
    · rintro ⟨bs, hbs, -, rfl⟩
      obtain rfl := List.forall₂_nil_left_iff.mp hbs
      rfl
  | block :: blocks, r, hr, hblocks => by
    have hfirst := fun after => (through_block_iff hr (hblocks block List.mem_cons_self) :
      r.through block = .ok after ↔ _)
    have hrest := fun b => through_blocks_iff (hr.after b)
      fun block hmem => hblocks block (List.mem_cons_of_mem _ hmem)
    have hkeys : ∀ {b : Block}, b.state ∉ r.draft.states.keys →
        (r.after b).draft.states.keys = r.draft.states.keys ++ [b.state] := by
      intro b hnew
      exact (Dict.keys_insert _ _ _).trans (if_neg hnew)
    rw [List.flatten_cons, through_append]
    constructor
    · intro h
      rcases hb : r.through block with fault | after
      · rw [hb] at h
        cases h
      · rw [hb] at h
        obtain ⟨b, hsays, hnew, rfl⟩ := (hfirst after).mp hb
        obtain ⟨bs, hbs, hnodup, rfl⟩ := (hrest b).mp h
        rw [hkeys hnew, List.append_assoc] at hnodup
        exact ⟨b :: bs, .cons hsays hbs, hnodup, rfl⟩
    · rintro ⟨_, hbs, hnodup, rfl⟩
      cases hbs with
      | @cons _ b _ bs hsays hbs =>
        have hnew : b.state ∉ r.draft.states.keys := fun hmem =>
          List.disjoint_of_nodup_append hnodup hmem List.mem_cons_self
        rw [(hfirst _).mpr ⟨b, hsays, hnew, rfl⟩]
        refine (hrest b).mpr ⟨bs, hbs, ?_, rfl⟩
        rw [hkeys hnew, List.append_assoc]
        exact hnodup

/-! ### What blocks draft -/

/-- What blocks of new states add to a draft. -/
theorem draft_foldl_after : ∀ {bs : List Block} {r : Reader}, r.Covers →
    (r.draft.states.keys ++ bs.map Block.state).Nodup →
      (bs.foldl after r).draft.states.entries = r.draft.states.entries ++ bs.map Block.stateEntry ∧
        (bs.foldl after r).draft.commands.entries =
          r.draft.commands.entries ++ bs.filterMap Block.commandEntry? ∧
        (bs.foldl after r).draft.vars = r.draft.vars
  | [], r, _, _ => by simp
  | b :: bs, r, hr, hnodup => by
    have hnew : b.state ∉ r.draft.states.keys := fun hmem =>
      List.disjoint_of_nodup_append hnodup hmem List.mem_cons_self
    have hkeys : (r.after b).draft.states.keys = r.draft.states.keys ++ [b.state] :=
      (Dict.keys_insert _ _ _).trans (if_neg hnew)
    have hstates : (r.after b).draft.states.entries = r.draft.states.entries ++ [b.stateEntry] :=
      Dict.entries_insert_of_not_mem b.table hnew
    have hcommands : (r.after b).draft.commands.entries =
        r.draft.commands.entries ++ b.commandEntry?.toList := by
      dsimp only [after, afterBlock, Block.commandEntry?]
      split_ifs
      · simp
      · exact Dict.entries_insert_of_not_mem b.commands (hr.lacks hnew).commands
    have hnodup' : ((r.after b).draft.states.keys ++ bs.map Block.state).Nodup := by
      rw [hkeys, List.append_assoc]
      exact hnodup
    obtain ⟨ihstates, ihcommands, ihvars⟩ := draft_foldl_after (hr.after b) hnodup'
    rw [List.foldl_cons, ihstates, ihcommands, ihvars, hstates, hcommands]
    refine ⟨by simp, ?_, rfl⟩
    cases hc : b.commandEntry? <;> simp [hc]

/-- The general section drafts assignments only. -/
theorem through_general : ∀ {ls : List (List Char)} {r : Reader}, r.phase = .general →
    (∀ raw ∈ ls, opensBlock raw = false) → r.through ls = .ok next →
      next.draft.states = r.draft.states ∧ next.draft.commands = r.draft.commands
  | [], r, _, _, h => by
    obtain rfl : r = next := Except.ok.inj h
    exact ⟨rfl, rfl⟩
  | raw :: ls, r, hphase, hls, h => by
    obtain ⟨after, hl, hthrough⟩ := exists_line_of_through_cons h
    have hrest := fun l hmem => hls l (List.mem_cons_of_mem _ hmem)
    have hraw := hls raw List.mem_cons_self
    cases step_of_line hl with
    | skip => exact through_general hphase hrest hthrough
    | openState hk =>
      rw [opensBlock, hk] at hraw
      cases hraw
    | assign => exact through_general (r := r.withVar _ _) hphase hrest hthrough
    | command _ hb =>
      rw [hphase] at hb
      cases hb
    | transition _ hb =>
      rw [hphase] at hb
      cases hb

/-- **Texts whose blocks stand in another order are read alike**: both up to the end, and what they
draft is the same but for the order. -/
theorem lines_shuffled {s t : List Char} (h : Shuffled s t)
    (hs : Reader.lines {} 1 (Text.lines s) = (r, none)) :
    ∃ r', Reader.lines {} 1 (Text.lines t) = (r', none) ∧ r.draft.Reordered r'.draft := by
  obtain ⟨hcut, hgeneral, hblocks⟩ := cutBlocks_spec (Text.lines s)
  obtain ⟨hcut', -, hblocks'⟩ := cutBlocks_spec (Text.lines t)
  rw [lines_eq_none_iff, ← hcut, through_append] at hs
  simp only [lines_eq_none_iff]
  rw [← hcut', ← h.general, through_append]
  cases hg : Reader.through {} (cutBlocks (Text.lines s)).1 with
  | error fault => rw [hg] at hs; cases hs
  | ok g =>
    rw [hg] at hs
    obtain ⟨hstates, hcommands⟩ := through_general rfl hgeneral hg
    have hcovers : g.Covers := by
      intro state hmem
      rw [hcommands] at hmem
      exact absurd hmem List.not_mem_nil
    obtain ⟨bs, hbs, hnodup, rfl⟩ := (through_blocks_iff hcovers hblocks).mp hs
    -- what the blocks say goes with them into the other order
    obtain ⟨bs', hbs', hperm⟩ := List.perm_comp_forall₂ h.blocks.symm hbs
    have hnodup' : (g.draft.states.keys ++ bs'.map Block.state).Nodup :=
      ((hperm.map Block.state).append_left _).nodup_iff.mpr hnodup
    refine ⟨_, (through_blocks_iff hcovers hblocks').mpr ⟨bs', hbs', hnodup', rfl⟩, ?_⟩
    obtain ⟨hs₁, hc₁, hv₁⟩ := draft_foldl_after hcovers hnodup
    obtain ⟨hs₂, hc₂, hv₂⟩ := draft_foldl_after hcovers hnodup'
    refine ⟨?_, ?_, hv₁.trans hv₂.symm⟩
    · rw [hs₁, hs₂]
      exact (hperm.symm.map _).append_left _
    · rw [hc₁, hc₂]
      exact (hperm.symm.filterMap _).append_left _

end Reader

/-! ### Programs -/

/-- Two texts have programs that are equal but for the order, or both have a line that is refused,
or both are inconsistent. -/
inductive SameButOrder : Except Error Program → Except Error Program → Prop
  | program {p q : Program} (h : p.Reordered q) : SameButOrder (.ok p) (.ok q)
  | line (e e' : LineError) : SameButOrder (.error (.line e)) (.error (.line e'))
  | inconsistent (e e' : Inconsistency) :
      SameButOrder (.error (.inconsistent e)) (.error (.inconsistent e'))

theorem sameButOrder_parse {s t : String} (h : Shuffled s.toList t.toList) :
    SameButOrder (parse s) (parse t) := by
  unfold parse Reader.parse
  rcases hs : Reader.lines {} 1 (lines s.toList) with ⟨r, _ | e⟩
  · obtain ⟨r', ht, hdraft⟩ := Reader.lines_shuffled h hs
    rw [ht]
    dsimp only
    cases hv : r.draft.validate with
    | ok p =>
      obtain ⟨q, hq, hreordered⟩ := hdraft.validate hv
      rw [hq]
      exact .program hreordered
    | error e =>
      cases hv' : r'.draft.validate with
      | error e' => exact .inconsistent e e'
      | ok q =>
        obtain ⟨p, hp, -⟩ := hdraft.symm.validate hv'
        rw [hp] at hv
        cases hv
  · rcases ht : Reader.lines {} 1 (lines t.toList) with ⟨r', _ | e'⟩
    · obtain ⟨r'', hs', -⟩ := Reader.lines_shuffled h.symm ht
      rw [hs'] at hs
      cases hs
    · exact .line e e'

/-- **The blocks of a listing may stand in any order.** Texts that differ in it both have a program,
or a line that is refused, or are inconsistent. Their programs are equal but for the order of the
states, of the states with commands and of the alphabet, and whatever the input, the options, the
draws and the prompts, the runs of both are the same, a report on a token that is not in the
alphabet quoting that of its program. -/
theorem parse_shuffled {s t : String} (h : Shuffled s.toList t.toList) :
    SameButOrder (parse s) (parse t) ∧
      ∀ p q, parse s = .ok p → parse t = .ok q → ∀ (m : Simulator) (input : Option (List Token)),
        (m.withProgram q).run input =
          { (m.withProgram p).run input with
            stop := ((m.withProgram p).run input).stop.map (Stop.withAlphabet q.alphabet) } := by
  have hsame := sameButOrder_parse h
  refine ⟨hsame, fun p q hp hq m input => ?_⟩
  rw [hp, hq] at hsame
  cases hsame with
  | program hreordered => exact m.run_withProgram hreordered input

/-- Two blocks that refer to each other, the one of the start state first. -/
def forwardText : String := "start = a\naccept = [b]\na:\n\tx\tb\nb:\n\t$log(hit)\n\ty\ta\n"

/-- The same blocks, the one of the start state last. -/
def backwardText : String := "start = a\naccept = [b]\nb:\n\t$log(hit)\n\ty\ta\na:\n\tx\tb"

/-- The program of `forwardText`. -/
def forward : Program where
  alphabet := ["x", "y"]
  states := Dict.ofList
    [("a", Dict.ofList [(.named "x", Dict.ofList [(.named "b", 1)])]),
      ("b", Dict.ofList [(.named "y", Dict.ofList [(.named "a", 1)])])]
  start := "a"
  accept := ["b"]
  mode := .dfa
  commands := Dict.ofList [("b", [⟨"log", ["hit"]⟩])]
  vars := Dict.ofList [("start", .literal "a"), ("accept", .array ["b"])]

/-- The program of `backwardText`: its alphabet is in the order of first use, and so in another
one. -/
def backward : Program :=
  { forward with
    alphabet := ["y", "x"]
    states := Dict.ofList
      [("b", Dict.ofList [(.named "y", Dict.ofList [(.named "a", 1)])]),
        ("a", Dict.ofList [(.named "x", Dict.ofList [(.named "b", 1)])])] }

theorem parse_shuffled_twoBlocks :
    Shuffled forwardText.toList backwardText.toList ∧ parse forwardText = .ok forward ∧
      parse backwardText = .ok backward ∧
      ∀ (m : Simulator) (input : Option (List Token)), (m.withProgram backward).run input =
        { (m.withProgram forward).run input with
          stop := ((m.withProgram forward).run input).stop.map (Stop.withAlphabet ["y", "x"]) } := by
  have hshuffled : Shuffled forwardText.toList backwardText.toList :=
    ⟨by decide +kernel, by decide +kernel⟩
  have hforward : parse forwardText = .ok forward := by rfl
  have hbackward : parse backwardText = .ok backward := by rfl
  exact ⟨hshuffled, hforward, hbackward, (parse_shuffled hshuffled).2 _ _ hforward hbackward⟩

end FiniteAutomata.Listing
