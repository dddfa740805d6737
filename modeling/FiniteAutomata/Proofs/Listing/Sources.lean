import FiniteAutomata.Proofs.Diagram.Drafting
import FiniteAutomata.Proofs.Listing.Agreement

/-! # Programs from listings and diagrams

A program that was read, imported or given another mode is the validation of its own draft, and its
commands stand in the order of its states (`Sourced.resolves_and_ordered`). A diagram may give any
label to a state and any text to a link, so such a program need not be legible; a mode never matters
(`legible_withMode`). `agrees_iff_of_sourced` says exactly which programs come back from their
listings: those whose parts are legible and do not clash with the syntax. -/

namespace FiniteAutomata

open Text

variable {p : Program}

/-! ### Another mode -/

@[simp] theorem Mode.ofText?_text (mode : Mode) : Mode.ofText? mode.text = some mode :=
  Mode.ofText?_eq_some_iff.mpr rfl

/-- Giving another mode to a program leaves what the other assignments resolve to. -/
theorem Draft.Resolves.withMode (h : p.toDraft.Resolves p) (mode : Mode) :
    (p.withMode mode).toDraft.Resolves (p.withMode mode) := by
  have hother : ∀ key, key ≠ "mode" →
      (p.withMode mode).toDraft.vars.find? key = p.toDraft.vars.find? key := by
    intro key hkey
    rw [Program.toDraft, Program.withMode, Dict.find?_insert, if_neg hkey.symm, Program.toDraft]
  refine ⟨?_, h.references, ?_, ?_, ?_, rfl, rfl, rfl, h.unflawed⟩
  · have halphabet := h.alphabet
    rw [resolveAlphabet, ← hother "lang" (by decide)] at halphabet
    exact halphabet
  · have hstart := h.start
    rw [resolveStart, ← hother "start" (by decide)] at hstart
    exact hstart
  · have haccept := h.accept
    rw [resolveAccept, ← hother "accept" (by decide)] at haccept
    exact haccept
  · rw [resolveMode, Program.toDraft, Program.withMode, Dict.find?_insert, if_pos rfl]
    simp

namespace Listing

theorem legibleKey_mode : LegibleKey "mode" :=
  ⟨by decide, by decide, by decide⟩

theorem legibleSetting_mode (mode : Mode) : LegibleSetting (.literal mode.text) := by
  cases mode <;> exact ⟨by decide, by decide⟩

/-- **A legible program is legible in every mode.** -/
theorem legible_withMode (h : p.Legible) (mode : Mode) : (p.withMode mode).Legible := by
  refine ⟨⟨?_, h.parts.states, h.parts.commands⟩, h.ordered, h.resolves.withMode mode⟩
  rintro ⟨key, value⟩ he
  rcases Dict.mem_entries_insert.mp he with ⟨rfl, rfl⟩ | ⟨-, he⟩
  · exact ⟨legibleKey_mode, legibleSetting_mode mode⟩
  · exact h.parts.vars _ he

/-! ### Sources -/

/-- A program that a listing or a diagram describes, perhaps in another mode. -/
inductive Sourced : Program → Prop where
  | parsed {text : String} {p : Program} (h : parse text = .ok p) : Sourced p
  | imported {datum : Datum} {asked : Option String} {mode : Mode} {p : Program}
      (h : Diagram.convert datum asked mode = .ok p) : Sourced p
  | withMode {p : Program} (h : Sourced p) (mode : Mode) : Sourced (p.withMode mode)

/-- A diagram attaches no commands. -/
theorem commands_of_toDraft {diagram : Diagram} {asked : Option String} {mode : Mode}
    {draft : Draft} (h : diagram.toDraft asked mode = .ok draft) : draft.commands = ∅ := by
  rw [(Diagram.toDraft_eq_ok_iff.mp h).2]
  rfl

/-- **What a source establishes**: the program is the validation of its own draft, and the states
with commands stand in the order of all states. -/
theorem Sourced.resolves_and_ordered (h : Sourced p) :
    p.toDraft.Resolves p ∧ p.commands.keys.Sublist p.states.keys := by
  induction h with
  | parsed h => exact ⟨(legible_of_parse h).resolves, (legible_of_parse h).ordered⟩
  | imported h =>
    obtain ⟨diagram, -, hd⟩ := Diagram.exists_diagram_of_convert h
    obtain ⟨draft, hdraft, hres⟩ := Diagram.exists_draft_of_toProgram hd
    refine ⟨toDraft_of_resolves hres ▸ hres, ?_⟩
    rw [hres.commands, commands_of_toDraft hdraft]
    exact List.nil_sublist _
  | withMode _ mode ih => exact ⟨ih.1.withMode mode, ih.2⟩

/-! ### Which programs come back -/

/-- **The exact limit of the round trip for all sources.** A program that was read, imported or
given another mode comes back from its listing exactly if its parts are legible, no list holds an
item of weight one whose name holds a hyphen, no bare name starts with a bracket, and no assignment
looks like a header. -/
theorem agrees_iff_of_sourced (h : Sourced p) (hw : p.WeightsReadBack) :
    (∃ q, parse (print p) = .ok q ∧ p.agrees q = true) ↔
      p.toDraft.Legible ∧ ¬ HasHyphenClash p ∧ ¬ HasBracketClash p ∧ ¬ HeaderClash p := by
  obtain ⟨hres, hordered⟩ := h.resolves_and_ordered
  constructor
  · -- what comes back was read, so it is legible, and the program agrees with it
    rintro ⟨q, hq, hagree⟩
    have hvalid := Program.flaw?_eq_none_iff.mp hres.unflawed
    have hparts := legible_of_agrees hvalid hagree (legible_of_parse hq).parts
    exact ⟨hparts, (agrees_iff_of_legible ⟨hparts, hordered, hres⟩ hw).mp ⟨q, hq, hagree⟩⟩
  · rintro ⟨hparts, hclash⟩
    exact (agrees_iff_of_legible ⟨hparts, hordered, hres⟩ hw).mpr hclash

/-- A listing whose only list gives its hyphenated state the weight one by writing it down. -/
def writtenOneText : String := "start = c\naccept = [c]\nc:\n\tx\t[1-a-b, c]\na-b:\n"

/-- The program of `writtenOneText`. -/
def writtenOneProgram : Program where
  alphabet := ["x"]
  states := Dict.ofList
    [("c", Dict.ofList [(.named "x", Dict.ofList [(.named "a-b", 1), (.named "c", 1)])]),
     ("a-b", ∅)]
  start := "c"
  accept := ["c"]
  vars := Dict.ofList [("start", .literal "c"), ("accept", .array ["c"])]

/-- A weight of one is not printed, so what stands before the hyphen is read as the weight; any
other weight is printed. -/
theorem agrees_iff_of_sourced_hyphens :
    (Sourced writtenOneProgram ∧ writtenOneProgram.WeightsReadBack ∧
      ¬ ∃ q, parse (print writtenOneProgram) = .ok q ∧ writtenOneProgram.agrees q = true) ∧
    (Sourced (hyphenProgram.withMode .nfa) ∧ (hyphenProgram.withMode .nfa).WeightsReadBack ∧
      ∃ q, parse (print (hyphenProgram.withMode .nfa)) = .ok q ∧
        (hyphenProgram.withMode .nfa).agrees q = true) := by
  constructor
  · have hparse : parse writtenOneText = .ok writtenOneProgram := rfl
    have hw : writtenOneProgram.WeightsReadBack := by decide +kernel
    refine ⟨.parsed hparse, hw, fun h => ?_⟩
    have hclash := ((agrees_iff_of_sourced (.parsed hparse) hw).mp h).2.1
    exact hclash (by decide +kernel)
  · have hparse : parse hyphenText = .ok hyphenProgram := rfl
    have hsourced : Sourced (hyphenProgram.withMode .nfa) := .withMode (.parsed hparse) .nfa
    have hlegible := legible_withMode (legible_of_parse hparse) .nfa
    have hw : (hyphenProgram.withMode .nfa).WeightsReadBack := by decide +kernel
    refine ⟨hsourced, hw, (agrees_iff_of_sourced hsourced hw).mpr ⟨hlegible.parts, ?_⟩⟩
    decide +kernel

end Listing

end FiniteAutomata
