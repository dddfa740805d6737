import FiniteAutomata.Proofs.Producers.WellFormed

/-! # Reading several texts with one reader

A reader may read one text after the other, also after a line that fails. It takes the lines of a
text up to that one (`Reader.taken`), and as a line that fails changes nothing (`handler_atomic`),
it is then as if it had read no more than the lines taken (`lines_taken`). So a reader that texts
have led to (`Reached`) has read the lines taken of all of them in a row (`Reached.lines`), and goes
on with another text as a fresh reader does with these lines before it (`reached_composes`). -/

namespace FiniteAutomata.Listing

open Text

/-- The text of some lines, each of which a line feed ends. -/
def joinLines (ls : List (List Char)) : String :=
  String.ofList (ls.flatMap fun line => line ++ ['\n'])

/-- A fault in a text that stands some lines further down in a longer one. -/
def Error.later (k : ℕ) : Error → Error
  | .line e => .line { e with number := e.number + k }
  | .inconsistent e => .inconsistent e

namespace Reader

variable {r next after : Reader} {earlier ls rest : List (List Char)} {number : ℕ}

/-- The lines that a reader takes: all of them, or those before the first one that fails. -/
def taken (r : Reader) : List (List Char) → List (List Char)
  | [] => []
  | raw :: rest =>
    match Handler.line raw r with
    | .ok _ next => raw :: next.taken rest
    | .error _ _ => []

/-- What a reported fault says about lines: it has arisen in the first one that fails, after those
that were taken, and it is reported by the number of that line from one on and its trimmed text. -/
def FailsAt (r : Reader) (ls : List (List Char)) (e : LineError) : Prop :=
  ∃ raw rest, ls = r.taken ls ++ raw :: rest ∧
    (∃ after, r.lines 1 (r.taken ls) = (after, none) ∧
      Handler.line raw after = .error e.fault after) ∧
    e.number = (r.taken ls).length + 1 ∧ e.source = String.ofList (trim raw)

/-- The readers that reading texts leads to, with or without success, and the lines that were taken
on the way. -/
inductive Reached : List (List Char) → Reader → Prop where
  | fresh : Reached [] {}
  | parse {earlier : List (List Char)} {r : Reader} (h : Reached earlier r) (text : String) :
      Reached (earlier ++ r.taken (Text.lines text.toList)) (r.parse text).1

/-- What holds of a reader between texts: lines of a block are expected exactly if a state is named,
which is then drafted, and its draft is proper. -/
structure Sound (r : Reader) : Prop where
  phase : r.phase = .state ↔ r.block.isSome = true
  block : ∀ state, r.block = some state → state ∈ r.draft.states
  draft : r.draft.Proper

/-! ### The lines that are taken -/

theorem isPrefix_taken : ∀ (ls : List (List Char)) (r : Reader), r.taken ls <+: ls
  | [], _ => List.prefix_rfl
  | raw :: rest, r => by
    rw [taken]
    cases Handler.line raw r with
    | ok _ next => exact List.cons_prefix_cons.mpr ⟨rfl, isPrefix_taken rest next⟩
    | error _ _ => exact List.nil_prefix

/-- **The reader after lines is the one after those that were taken.** -/
theorem lines_taken : ∀ (ls : List (List Char)) (r : Reader) (number : ℕ),
    r.lines number (r.taken ls) = ((r.lines number ls).1, none)
  | [], _, _ => rfl
  | raw :: rest, r, number => by
    rw [taken, lines]
    cases h : Handler.line raw r with
    | ok _ next =>
      dsimp only
      rw [lines, h]
      exact lines_taken rest next (number + 1)
    | error fault after =>
      dsimp only
      rw [lines, handler_atomic h]

/-- Lines are all taken, or the first one that fails is reported. -/
theorem lines_taken_or : ∀ (ls : List (List Char)) (r : Reader) (number : ℕ),
    (r.taken ls = ls ∧ (r.lines number ls).2 = none) ∨
      ∃ raw rest fault, ls = r.taken ls ++ raw :: rest ∧
        Handler.line raw (r.lines number ls).1 = .error fault (r.lines number ls).1 ∧
        (r.lines number ls).2 =
          some ⟨number + (r.taken ls).length, String.ofList (trim raw), fault⟩
  | [], _, _ => Or.inl ⟨rfl, rfl⟩
  | raw :: rest, r, number => by
    rw [taken, lines]
    cases h : Handler.line raw r with
    | ok _ next =>
      dsimp only
      rcases lines_taken_or rest next (number + 1) with
        ⟨hall, hnone⟩ | ⟨raw', rest', fault, hls, hfail, he⟩
      · exact Or.inl ⟨by rw [hall], hnone⟩
      · refine Or.inr ⟨raw', rest', fault, congrArg (raw :: ·) hls, hfail, ?_⟩
        rw [he, List.length_cons, Nat.add_right_comm, Nat.add_assoc]
    | error fault after =>
      obtain rfl := handler_atomic h
      exact Or.inr ⟨raw, rest, fault, rfl, h, rfl⟩

/-- Lines that are all read are followed by the others. -/
theorem lines_append : ∀ {ls : List (List Char)} {r : Reader} {number : ℕ},
    r.lines number ls = (next, none) → ∀ rest,
      r.lines number (ls ++ rest) = next.lines (number + ls.length) rest
  | [], r, number, h, rest => by
    rw [lines, Prod.mk.injEq] at h
    rw [← h.1]
    rfl
  | raw :: ls, r, number, h, rest => by
    rw [lines] at h
    rw [List.cons_append, lines]
    cases hl : Handler.line raw r with
    | ok _ after =>
      rw [hl] at h
      dsimp only at h ⊢
      rw [lines_append h rest, List.length_cons, Nat.add_right_comm, Nat.add_assoc]
    | error fault after =>
      rw [hl] at h
      cases h

/-- Lines that stand further down are read alike, and reported with their numbers there. -/
theorem lines_later (k : ℕ) : ∀ (ls : List (List Char)) (r : Reader) (number : ℕ),
    r.lines (number + k) ls =
      ((r.lines number ls).1, (r.lines number ls).2.map fun e => { e with number := e.number + k })
  | [], _, _ => rfl
  | raw :: rest, r, number => by
    rw [lines, lines]
    cases Handler.line raw r with
    | ok _ next =>
      dsimp only
      rw [Nat.add_right_comm, lines_later k rest next (number + 1)]
    | error fault after => rfl

/-! ### Texts -/

theorem parse_of_read {text : String}
    (h : r.lines 1 (Text.lines text.toList) = (after, none)) :
    r.parse text = (after, after.draft.validate.mapError .inconsistent) := by
  rw [parse, h]

theorem parse_of_fault {text : String} {e : LineError}
    (h : r.lines 1 (Text.lines text.toList) = (after, some e)) :
    r.parse text = (after, .error (.line e)) := by
  rw [parse, h]

theorem parse_fst (r : Reader) (text : String) :
    (r.parse text).1 = (r.lines 1 (Text.lines text.toList)).1 := by
  rcases h : r.lines 1 (Text.lines text.toList) with ⟨after, _ | e⟩
  · rw [parse_of_read h]
  · rw [parse_of_fault h]

/-- What validation reports is no line. -/
theorem validate_ne_line (d : Draft) (e : LineError) :
    d.validate.mapError Error.inconsistent ≠ .error (.line e) := by
  cases d.validate <;> simp [Except.mapError]

/-- **What stops a reader in a text** is the first line that fails. -/
theorem parse_taken_or (r : Reader) (text : String) :
    (r.taken (Text.lines text.toList) = Text.lines text.toList ∧
        ∀ e, (r.parse text).2 ≠ .error (.line e)) ∨
      ∃ e, (r.parse text).2 = .error (.line e) ∧ r.FailsAt (Text.lines text.toList) e := by
  have htaken := lines_taken (Text.lines text.toList) r 1
  have hcases := lines_taken_or (Text.lines text.toList) r 1
  rcases hr : r.lines 1 (Text.lines text.toList) with ⟨after, e?⟩
  rw [hr] at htaken hcases
  rcases hcases with ⟨hall, rfl⟩ | ⟨raw, rest, fault, hls, hfail, rfl⟩
  · refine Or.inl ⟨hall, fun e => ?_⟩
    rw [parse_of_read hr]
    exact validate_ne_line after.draft e
  · refine Or.inr ⟨_, by rw [parse_of_fault hr], raw, rest, hls, ⟨after, htaken, hfail⟩, ?_, rfl⟩
    exact Nat.add_comm 1 _

/-! ### Readers that texts lead to -/

theorem Reached.unbroken (h : Reached earlier r) : ∀ raw ∈ earlier, Unbroken raw := by
  induction h with
  | fresh => exact fun raw hraw => absurd hraw List.not_mem_nil
  | @parse earlier r _ text ih =>
    intro raw hraw
    rcases List.mem_append.mp hraw with hraw | hraw
    · exact ih raw hraw
    · exact unbroken_of_mem_lines ((isPrefix_taken _ r).subset hraw)

/-- **A reader that texts have led to has read the lines that were taken.** -/
theorem Reached.lines (h : Reached earlier r) : Reader.lines {} 1 earlier = (r, none) := by
  induction h with
  | fresh => rfl
  | @parse earlier r _ text ih =>
    rw [lines_append ih, lines_taken, lines_later earlier.length, parse_fst]

theorem Reached.sound (h : Reached earlier r) : r.Sound := by
  have hconsistent := consistent_lines consistent_empty h.unbroken h.lines
  refine ⟨hconsistent.phase, fun state hstate => ?_, Draft.proper_of_legible hconsistent.legible⟩
  rw [hconsistent.block] at hstate
  exact Dict.mem_iff_mem_keys.mpr (List.mem_of_getLast? hstate)

/-- Another text is read as what comes after the lines that were taken. -/
theorem Reached.parse_eq (h : Reached earlier r) (text : String) :
    Reader.parse {} (joinLines earlier ++ text) =
      ((r.parse text).1, (r.parse text).2.mapError (Error.later earlier.length)) := by
  have htext : (joinLines earlier ++ text).toList =
      (earlier.flatMap fun line => line ++ ['\n']) ++ text.toList := by
    rw [String.toList_append, joinLines, String.toList_ofList]
  have hlines : Reader.lines {} 1 (Text.lines (joinLines earlier ++ text).toList) =
      r.lines (1 + earlier.length) (Text.lines text.toList) := by
    rw [htext, lines_flatMap_append h.unbroken, lines_append h.lines]
  rcases hr : r.lines 1 (Text.lines text.toList) with ⟨after, e?⟩
  rw [lines_later, hr] at hlines
  cases e? with
  | some e =>
    rw [parse_of_fault hlines, parse_of_fault hr]
    rfl
  | none =>
    rw [parse_of_read hlines, parse_of_read hr]
    cases after.draft.validate <;> rfl

/-- **One reader reads its texts as one.** Let texts, read with or without success, have led to a
reader, and let `earlier` be the lines taken on the way. A line that fails leaves the reader as it
is; the reader is sound. In another text all lines are taken, or the first one that fails is
reported by its number and its trimmed text. The outcome, and the reader afterwards, are those of a
fresh reader on the lines taken earlier followed by the text, but that the number of a line counts
from the start of the text. -/
theorem reached_composes (h : Reached earlier r) :
    (∀ raw fault after, Handler.line raw r = .error fault after → after = r) ∧ r.Sound ∧
      ∀ text,
        ((r.taken (Text.lines text.toList) = Text.lines text.toList ∧
            ∀ e, (r.parse text).2 ≠ .error (.line e)) ∨
          ∃ e, (r.parse text).2 = .error (.line e) ∧ r.FailsAt (Text.lines text.toList) e) ∧
        Reader.parse {} (joinLines earlier ++ text) =
          ((r.parse text).1, (r.parse text).2.mapError (Error.later earlier.length)) :=
  ⟨fun _ _ _ hfail => handler_atomic hfail, h.sound,
    fun text => ⟨parse_taken_or r text, h.parse_eq text⟩⟩

/-- A text whose last line lacks its destination. -/
def brokenText : String := "start = a\naccept = [a]\na:\n\tx\n"

/-- A line that goes on where `brokenText` has failed. -/
def repairText : String := "\tx\ta\n"

theorem reached_composes_broken :
    Reached ((Text.lines brokenText.toList).take 3) (Reader.parse {} brokenText).1 ∧
      (Reader.parse {} brokenText).1.Sound ∧
      (Reader.parse {} "start = a\naccept = [a]\na:\n\tx\ta\n").2 =
        ((Reader.parse {} brokenText).1.parse repairText).2 := by
  have hreached : Reached ((Text.lines brokenText.toList).take 3) (Reader.parse {} brokenText).1 :=
    .parse .fresh brokenText
  obtain ⟨-, hsound, htexts⟩ := reached_composes hreached
  refine ⟨hreached, hsound, ?_⟩
  have hread : ∃ p, ((Reader.parse {} brokenText).1.parse repairText).2 = .ok p := ⟨_, rfl⟩
  obtain ⟨p, hp⟩ := hread
  have hwhole := congrArg Prod.snd (htexts repairText).2
  rw [hp] at hwhole ⊢
  exact hwhole

end Reader

end FiniteAutomata.Listing
