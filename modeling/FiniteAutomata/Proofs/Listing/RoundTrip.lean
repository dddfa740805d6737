import FiniteAutomata.Proofs.Listing.Rereading
import FiniteAutomata.Proofs.Producers.Basic

/-! # Printing and reading a program

A legible program is read from its own listing exactly if nothing in it clashes with the syntax: no
list with an item of weight one whose name holds a hyphen, no bare name that starts with a bracket,
and no assignment that looks like a header (`agrees_iff_of_legible`).

* Without a clash the listing gives the very same program (`parse_print`).
* A clash in a destination set changes that set, and nothing else can make up for it.
* An assignment that looks like a header opens one more block, so there is one more state
  (`size_readAll`).

A program that was read is legible (`legible_of_parse`). So `agrees_iff_of_parse` says for programs
that come from a listing exactly which of them come back. -/

namespace FiniteAutomata

open Text

namespace Listing

variable {p q : Program}

/-! ### The lines of a listing -/

theorem intercalate_append_glue {glue : List Char} : ∀ {pieces : List (List Char)}, pieces ≠ [] →
    List.intercalate glue pieces ++ glue = pieces.flatMap fun piece => piece ++ glue
  | [], h => absurd rfl h
  | [p], _ => by simp
  | p :: q :: pieces, _ => by
    rw [List.intercalate_cons_cons, List.append_assoc,
      intercalate_append_glue (List.cons_ne_nil q pieces)]
    rfl

theorem unbroken_of_mem_printBlock (hp : p.toDraft.Legible) (hw : p.WeightsReadBack)
    {e : String × Table} (he : e ∈ p.states.entries) :
    ∀ l ∈ printBlock p e.1 e.2, Unbroken l.toList := by
  obtain ⟨hs, ht⟩ := hp.states e he
  have htab : isLineBreak '\t' = false := by decide
  intro l hl
  rcases List.mem_append.mp hl with hl | hl
  · rcases List.mem_cons.mp hl with rfl | hl
    · rw [String.toList_append, unbroken_append]
      exact ⟨hs.solid.unbroken, by simp [isLineBreak]⟩
    · obtain ⟨c, hc, rfl⟩ := List.mem_map.mp hl
      rw [toList_indented, unbroken_cons]
      exact ⟨htab, (solid_commandText (legibleCommand_of_commandsAt hp _ c hc)).unbroken⟩
  · obtain ⟨t, htm, rfl⟩ := List.mem_map.mp hl
    rw [toList_indented, unbroken_cons]
    exact ⟨htab, (solid_printTransition (ht t htm).1 (ht t htm).2 (hw e he t htm)).unbroken⟩

/-- No line of a listing of legible parts holds a line break. -/
theorem unbroken_of_mem_printLines (hp : Shown p) (hw : p.WeightsReadBack) :
    ∀ l ∈ printLines p, Unbroken l.toList := by
  intro l hl
  rw [printLines, hp.settings, List.mem_append] at hl
  rcases hl with hl | hl
  · obtain ⟨e, he, rfl⟩ := List.mem_map.mp hl
    obtain ⟨hk, hv⟩ := hp.parts.vars e he
    exact (solid_printSetting hk hv).unbroken
  · obtain ⟨e, he, hl⟩ := List.mem_flatMap.mp hl
    exact unbroken_of_mem_printBlock hp.parts hw he l hl

/-- **The lines of a printed listing** are the lines that were printed. -/
theorem lines_print (hp : Shown p) (hw : p.WeightsReadBack) :
    Text.lines (print p).toList = (printLines p).map String.toList := by
  have hne : (printLines p).map String.toList ≠ [] := by
    obtain ⟨e, he⟩ := List.exists_mem_of_ne_nil _ hp.populated
    intro hnil
    rw [List.map_eq_nil_iff, printLines, List.append_eq_nil_iff, List.flatMap_eq_nil_iff] at hnil
    exact absurd (hnil.2 _ he) (by simp [printBlock])
  rw [print, String.toList_append, String.toList_intercalate]
  have hglue : "\n".toList = ['\n'] := rfl
  rw [hglue, intercalate_append_glue hne, lines_flatMap_newline]
  intro line hline
  obtain ⟨l, hl, rfl⟩ := List.mem_map.mp hline
  exact unbroken_of_mem_printLines hp hw l hl

/-- A text whose lines can be read gives what validation makes of their draft. -/
theorem parse_of_readAll {text : String} {ls : List String} {after : Reader}
    (h : Text.lines text.toList = ls.map String.toList) (hafter : Reader.readAll {} ls = .ok after) :
    parse text = after.draft.validate.mapError .inconsistent := by
  have hlines : Reader.lines {} 1 (ls.map String.toList) = (after, none) :=
    Reader.lines_eq_iff.mpr hafter
  simp [parse, Reader.parse, h, hlines]

/-- A text of known lines gives a program exactly if the lines can be read and their draft gives
it. -/
theorem parse_eq_ok_iff {text : String} {ls : List String}
    (h : Text.lines text.toList = ls.map String.toList) : parse text = .ok q ↔
      ∃ after, Reader.readAll {} ls = .ok after ∧ after.draft.Resolves q := by
  constructor
  · intro hq
    obtain ⟨after, hafter, hres⟩ := exists_draft_of_parse hq
    rw [h] at hafter
    exact ⟨after, Reader.lines_eq_iff.mp hafter, hres⟩
  · rintro ⟨after, hafter, hres⟩
    rw [parse_of_readAll h hafter, Draft.validate_eq_ok_iff.mpr hres]
    rfl

/-! ### Programs that were read -/

theorem toDraft_of_resolves {d : Draft} (h : d.Resolves p) : p.toDraft = d := by
  obtain ⟨states, commands, vars⟩ := d
  rw [Program.toDraft, h.states, h.commands, h.vars]

/-- **A program that was read is legible.** -/
theorem legible_of_parse {text : String} (h : parse text = .ok p) : p.Legible := by
  obtain ⟨r, hr, hres⟩ := exists_draft_of_parse h
  have hcons := Reader.consistent_lines Reader.consistent_empty
    (fun raw hraw => unbroken_of_mem_lines hraw) hr
  have hdraft := toDraft_of_resolves hres
  have hordered := hcons.ordered
  rw [← hdraft] at hordered
  exact ⟨hdraft ▸ hcons.legible, hordered, hdraft ▸ hres⟩

/-! ### One state for each header -/

/-- Whether a line is a header. -/
def headerLine (l : String) : Bool :=
  match Line.ofTrimmed (trim l.toList) with
  | .header _ => true
  | _ => false

theorem size_withTable {r : Reader} (hr : r.Consistent) {state : String}
    (hs : r.block = some state) (table : Table) :
    (r.withTable state table).draft.states.size = r.draft.states.size := by
  have hmem : state ∈ r.draft.states.keys := List.mem_of_getLast? (by rw [← hr.block, hs])
  rw [Reader.withTable, ← Dict.length_keys, Dict.keys_insert, if_pos hmem, Dict.length_keys]

/-- A header adds a state, and no other line does. -/
theorem size_line {r next : Reader} (hr : r.Consistent) {l : String}
    (h : r.line l.toList = .ok next) :
    next.draft.states.size = r.draft.states.size + if headerLine l then 1 else 0 := by
  unfold headerLine
  cases Reader.step_of_line h with
  | skip hk => simp [hk]
  | openState hk _ _ hnew =>
    rw [hk, Reader.states_opened, ← Dict.length_keys, Dict.keys_insert, if_neg hnew, List.length_append,
      Dict.length_keys]
    rfl
  | assign hk =>
    rw [hk]
    rfl
  | command hk =>
    rw [hk]
    rfl
  | transition hk hb =>
    rw [hk]
    exact size_withTable hr (hr.block_eq hb) _

/-- **There is one state for each header** that was read. -/
theorem size_readAll : ∀ {ls : List String} {r after : Reader}, r.Consistent →
    (∀ l ∈ ls, Unbroken l.toList) → r.readAll ls = .ok after →
      after.draft.states.size = r.draft.states.size + ls.countP headerLine
  | [], r, after, _, _, h => by
    obtain rfl := Except.ok.inj h
    rfl
  | l :: ls, r, after, hr, hls, h => by
    rw [Reader.readAll_cons] at h
    rcases hl : r.line l.toList with e | next
    · simp [hl, Except.bind] at h
    · rw [hl] at h
      have hnext := Reader.consistent_line hr (hls l List.mem_cons_self) hl
      have h1 := size_line hr hl
      have h2 := size_readAll hnext (fun l' hl' => hls l' (List.mem_cons_of_mem _ hl')) h
      rw [h2, h1, List.countP_cons]
      omega

/-- Every block has a header. -/
theorem length_le_countP_blocks (p : Program) : ∀ {l : List (String × Table)},
    (∀ e ∈ l, LegibleState e.1) →
      l.length ≤ (l.flatMap fun e => printBlock p e.1 e.2).countP headerLine
  | [], _ => Nat.zero_le _
  | e :: l, h => by
    have hs := h e List.mem_cons_self
    have hheader : headerLine (e.1 ++ ":") = true := by
      obtain ⟨h1, h2⟩ := ofTrimmed_header hs
      rw [headerLine, h1, h2]
    have ih := length_le_countP_blocks p fun e' he => h e' (List.mem_cons_of_mem _ he)
    rw [List.flatMap_cons, List.countP_append, printBlock, List.cons_append, List.countP_cons,
      hheader, List.length_cons, if_pos rfl]
    omega

/-- **An assignment that looks like a header never comes back**: it opens one more block. -/
theorem not_headerClash_of_agrees (hp : Shown p) (hw : p.WeightsReadBack) {after : Reader}
    (h : Reader.readAll {} (printLines p) = .ok after)
    (hsize : p.states.size = after.draft.states.size) : ¬ HeaderClash p := by
  intro hclash
  obtain ⟨e, he, hheader⟩ := headerClash_iff.mp hclash
  obtain ⟨hk, hv⟩ := hp.parts.vars e he
  have hsolid := solid_printSetting hk hv
  have hhash : (printSetting e.1 e.2).toList.head? ≠ some '#' := by
    rw [toList_printSetting, List.append_assoc, head?_append_of_solid hk.solid]
    exact hk.uncommented
  have hline : headerLine (printSetting e.1 e.2) = true := by
    rw [headerLine, hsolid.trimmed, ofTrimmed_of_solid hsolid hhash, hheader]
    rfl
  -- one header among the assignments and one for each state are more than there are states
  have hvars : 0 < (p.vars.entries.map fun e => printSetting e.1 e.2).countP headerLine :=
    List.countP_pos_iff.mpr ⟨_, List.mem_map.mpr ⟨e, he, rfl⟩, hline⟩
  have hblocks := length_le_countP_blocks p (l := p.states.entries)
    fun e he => (hp.parts.states e he).1
  have hcount := size_readAll Reader.consistent_empty (unbroken_of_mem_printLines hp hw) h
  rw [printLines, hp.settings, List.countP_append] at hcount
  have hzero : ({} : Reader).draft.states.size = 0 := rfl
  rw [Dict.size] at hsize
  omega

/-! ### Clashes in destination sets -/

theorem forall₂_exists_right {α β : Type*} {R : α → β → Prop} {l : List α} {l' : List β}
    (h : List.Forall₂ R l l') {a : α} (ha : a ∈ l) : ∃ b ∈ l', R a b := by
  induction h with
  | nil => simp at ha
  | cons hxy _ ih =>
    rcases List.mem_cons.mp ha with rfl | ha
    · exact ⟨_, List.mem_cons_self, hxy⟩
    · obtain ⟨b, hb, hab⟩ := ih ha
      exact ⟨b, List.mem_cons_of_mem _ hb, hab⟩

/-- If the tables that were read agree with those of the program, so does every destination set with
what was read from its text. -/
theorem agrees_of_rereadState {states : Dict String Table}
    (h : List.Forall₂ RereadState p.states.entries states.entries)
    (ha : p.states.agrees Program.tablesAgree states = true) {s : String × Table}
    (hs : s ∈ p.states.entries) {t : Token × Destinations} (ht : t ∈ s.2.entries) :
    ∃ d, readDestinations (printDestinations t.2).toList = .ok d ∧
      t.2.agrees (· == ·) d = true := by
  obtain ⟨state, table⟩ := s
  obtain ⟨token, d⟩ := t
  obtain ⟨table', htable', hagree⟩ := Dict.find?_of_agrees ha hs
  obtain ⟨⟨_, table''⟩, htable'', rfl, hreread⟩ := forall₂_exists_right h hs
  -- both are the table under the same key
  obtain rfl : table' = table'' := Option.some.inj
    ((Dict.find?_eq_some_iff.mpr htable').symm.trans (Dict.find?_eq_some_iff.mpr htable''))
  obtain ⟨d', hd', hsame⟩ := Dict.find?_of_agrees hagree ht
  obtain ⟨⟨_, d''⟩, hd'', rfl, hread⟩ := forall₂_exists_right hreread ht
  obtain rfl : d' = d'' := Option.some.inj
    ((Dict.find?_eq_some_iff.mpr hd').symm.trans (Dict.find?_eq_some_iff.mpr hd''))
  exact ⟨d', hread, hsame⟩

/-! ### The round trip -/

/-- A destination set of a program that is a list with an item of weight one whose name holds a
hyphen. -/
def HasHyphenClash (p : Program) : Prop :=
  ∃ s ∈ p.states.entries, ∃ t ∈ s.2.entries, HyphenClash t.2

/-- A destination set of a program that is a bare name with a bracket in front. -/
def HasBracketClash (p : Program) : Prop :=
  ∃ s ∈ p.states.entries, ∃ t ∈ s.2.entries, BracketClash t.2

instance : Decidable (HasHyphenClash p) := by
  unfold HasHyphenClash HyphenClash
  infer_instance

instance : Decidable (HasBracketClash p) := by
  unfold HasBracketClash BracketClash
  infer_instance

/-- **A listing without clashes drafts what it shows**, with the commands in the order of the
states. -/
theorem parse_print_of_shown (hp : Shown p) (hw : p.WeightsReadBack) (h1 : ¬ HasHyphenClash p)
    (h2 : ¬ HasBracketClash p) (h3 : ¬ HeaderClash p) : parse (print p) =
      (⟨p.states, orderedCommands p, p.vars⟩ : Draft).validate.mapError .inconsistent := by
  have hsame : List.Forall₂ RereadState p.states.entries p.states.entries := by
    refine List.forall₂_same.mpr fun s hs => ⟨rfl, List.forall₂_same.mpr fun t ht => ⟨rfl, ?_⟩⟩
    exact readDestinations_print ((hp.parts.states s hs).2 t ht).2 (hw s hs t ht)
      (fun h => h1 ⟨s, hs, t, ht, h⟩) (fun h => h2 ⟨s, hs, t, ht, h⟩)
  obtain ⟨after, hafter, hdraft⟩ := (readAll_printLines_iff hp hw h3).mpr ⟨p.states, hsame, rfl⟩
  rw [parse_of_readAll (lines_print hp hw) hafter, hdraft]

/-- **A legible program without clashes is read from its listing**, in every field and order. -/
theorem parse_print (hp : p.Legible) (hw : p.WeightsReadBack) (h1 : ¬ HasHyphenClash p)
    (h2 : ¬ HasBracketClash p) (h3 : ¬ HeaderClash p) : parse (print p) = .ok p := by
  have hvalidate : p.toDraft.validate = .ok p := Draft.validate_eq_ok_iff.mpr hp.resolves
  rw [parse_print_of_shown (shown_of_legible hp) hw h1 h2 h3, orderedCommands_eq hp,
    ← Program.toDraft, hvalidate]
  rfl

theorem agrees_iff : p.agrees q = true ↔
    p.alphabet = q.alphabet ∧ p.statesAgree q = true ∧ p.start = q.start ∧ p.accept = q.accept ∧
      p.mode = q.mode ∧ p.commandsAgree q = true ∧ p.varsAgree q = true ∧
        p.declaresAlphabet = q.declaresAlphabet := by
  simp only [Program.agrees, Bool.and_eq_true, decide_eq_true_eq, and_assoc]

/-- A program agrees with itself. -/
theorem agrees_self (hp : p.toDraft.Legible) : p.agrees p = true := by
  have hstates : p.statesAgree p = true := Dict.agrees_self fun s hs => Dict.agrees_self fun t ht =>
    Dict.agrees_self fun e he => beq_self_of_isWeight (((hp.states s hs).2 t ht).2.weights e he)
  have hcommands : p.commandsAgree p = true := Dict.agrees_self fun _ _ => by simp
  have hvars : p.varsAgree p = true := Dict.agrees_self fun _ _ => by simp
  exact agrees_iff.mpr ⟨rfl, hstates, rfl, rfl, rfl, hcommands, hvars, rfl⟩

/-- **A legible program comes back from its listing** exactly if nothing clashes with the syntax. -/
theorem agrees_iff_of_legible (hp : p.Legible) (hw : p.WeightsReadBack) :
    (∃ q, parse (print p) = .ok q ∧ p.agrees q = true) ↔
      ¬ HasHyphenClash p ∧ ¬ HasBracketClash p ∧ ¬ HeaderClash p := by
  constructor
  · rintro ⟨q, hq, hagree⟩
    have hshown := shown_of_legible hp
    obtain ⟨after, hafter, hres⟩ := (parse_eq_ok_iff (lines_print hshown hw)).mp hq
    obtain ⟨-, hstates, -⟩ := agrees_iff.mp hagree
    rw [Program.statesAgree, hres.states] at hstates
    have h3 := not_headerClash_of_agrees hshown hw hafter (Dict.size_of_agrees hstates)
    obtain ⟨states, hreread, hdraft⟩ := (readAll_printLines_iff hshown hw h3).mp ⟨after, hafter, rfl⟩
    rw [hdraft] at hstates
    refine ⟨?_, ?_, h3⟩
    · rintro ⟨s, hs, t, ht, hclash⟩
      obtain ⟨d, hd, hsame⟩ := agrees_of_rereadState hreread hstates hs ht
      exact not_hyphenClash_of_agrees ((hp.parts.states s hs).2 t ht).2 (hw s hs t ht) hd hsame
        hclash
    · rintro ⟨s, hs, t, ht, hclash⟩
      obtain ⟨d, hd, hsame⟩ := agrees_of_rereadState hreread hstates hs ht
      exact not_bracketClash_of_agrees hd hsame hclash
  · rintro ⟨h1, h2, h3⟩
    exact ⟨p, parse_print hp hw h1 h2 h3, agrees_self hp.parts⟩

/-- **The exact limit of the round trip for programs that were read.** Such a program comes back
from its listing exactly if no list holds an item of weight one whose name holds a hyphen, no bare
name starts with a bracket, and no assignment looks like a header. -/
theorem agrees_iff_of_parse {text : String} (h : parse text = .ok p) (hw : p.WeightsReadBack) :
    (∃ q, parse (print p) = .ok q ∧ p.agrees q = true) ↔
      ¬ HasHyphenClash p ∧ ¬ HasBracketClash p ∧ ¬ HeaderClash p :=
  agrees_iff_of_legible (legible_of_parse h) hw

/-- A listing whose hyphens stand after a weight other than one and in a bare name. -/
def hyphenText : String := "start = c\naccept = [c]\nc:\n\tx\t[2.5-a-b, c]\n\ty\ta-b\na-b:\n"

/-- The program of `hyphenText`. -/
def hyphenProgram : Program where
  alphabet := ["x", "y"]
  states := Dict.ofList
    [("c", Dict.ofList
      [(.named "x", Dict.ofList [(.named "a-b", 2.5), (.named "c", 1)]),
       (.named "y", Dict.ofList [(.named "a-b", 1)])]),
     ("a-b", ∅)]
  start := "c"
  accept := ["c"]
  vars := Dict.ofList [("start", .literal "c"), ("accept", .array ["c"])]

theorem agrees_iff_of_parse_hyphenText :
    parse hyphenText = .ok hyphenProgram ∧ hyphenProgram.WeightsReadBack ∧
      ∃ q, parse (print hyphenProgram) = .ok q ∧ hyphenProgram.agrees q = true := by
  have hparse : parse hyphenText = .ok hyphenProgram := rfl
  have hw : hyphenProgram.WeightsReadBack := by decide +kernel
  exact ⟨hparse, hw, (agrees_iff_of_parse hparse hw).mpr (by decide +kernel)⟩

end Listing

end FiniteAutomata
