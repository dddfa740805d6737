import FiniteAutomata.Proofs.Listing.Grammar
import FiniteAutomata.Proofs.Text.Lines
import Mathlib.Logic.Relation

/-! # Layout

The layout of a listing is what can be edited without a change of its meaning: blanks at the ends of
lines, lines that are blank or comments, and the characters that end the lines (`LayoutEdit`). Such
edits leave the trimmed lines that are not passed over as they are (`content_edit`), and they lead
from any text to every other one with the same such lines (`relaid_iff`). Reading depends on
nothing else (`Reader.read_alike`), for a line is read like every line with the same trimming
(`Reader.line_eq_ok_iff`). So texts that differ in their layout have the same program, or are
refused for the same reason, at the same line, whatever its number (`parse_relaid`). -/

namespace FiniteAutomata.Listing

open Text

/-! ### Edits of the layout -/

/-- What stands before the start of a line: nothing, or a text that ends with a line break. -/
def StartsLine (before : List Char) : Prop :=
  before = [] ∨ ∃ text c, isLineBreak c = true ∧ before = text ++ [c]

/-- What stands after the end of a line: nothing, or a text that starts with a line break. -/
def EndsLine (after : List Char) : Prop :=
  after = [] ∨ ∃ c text, isLineBreak c = true ∧ after = c :: text

/-- The ends of lines. -/
inductive LineEnd : List Char → Prop
  | crlf : LineEnd ['\r', '\n']
  | single {c : Char} (h : isLineBreak c = true) : LineEnd [c]

/-- Blanks that end no line. -/
def Padding (s : List Char) : Prop := ∀ c ∈ s, isBlank c = true ∧ isLineBreak c = false

instance (s : List Char) : Decidable (Padding s) :=
  decidable_of_iff (s.all (fun c => isBlank c && !isLineBreak c) = true) (by simp [Padding])

/-- A line that is blank or a comment. -/
structure Idle (line : List Char) : Prop where
  unbroken : Unbroken line
  idle : trim line = [] ∨ (trim line).head? = some '#'

/-- One edit of the layout: blanks added at the ends of a line, a blank line or a comment added
above or below a line, or one line end written in place of another one. -/
inductive LayoutEdit : List Char → List Char → Prop
  | pad {before left line right after : List Char} (hstart : StartsLine before)
      (hline : Unbroken line) (hend : EndsLine after) (hleft : Padding left)
      (hright : Padding right) :
      LayoutEdit (before ++ line ++ after) (before ++ (left ++ line ++ right) ++ after)
  | above {before line ending after : List Char} (hstart : StartsLine before) (hline : Idle line)
      (hending : LineEnd ending) :
      LayoutEdit (before ++ after) (before ++ (line ++ ending) ++ after)
  | below {before ending line after : List Char} (hend : EndsLine after) (hline : Idle line)
      (hending : LineEnd ending) :
      LayoutEdit (before ++ after) (before ++ (ending ++ line) ++ after)
  | ending {before ending ending' after : List Char} (h : LineEnd ending) (h' : LineEnd ending') :
      LayoutEdit (before ++ ending ++ after) (before ++ ending' ++ after)

/-- Two texts differ in their layout only: edits lead from one to the other, forwards or
backwards. -/
def Relaid : List Char → List Char → Prop := Relation.EqvGen LayoutEdit

/-! ### What stands on the lines -/

/-- What a line says: its trimming, unless it is passed over. -/
def said? (line : List Char) : Option (List Char) :=
  if Line.ofTrimmed (trim line) = .skipped then none else some (trim line)

/-- What the lines of a text say. -/
def content (text : List Char) : List (List Char) := (lines text).filterMap said?

/-- The lines of a text that are not passed over, with their numbers. -/
def numbered (text : List Char) : List (List Char × ℕ) :=
  ((lines text).zipIdx 1).filter fun line => Line.ofTrimmed (trim line.1) ≠ .skipped

theorem ofTrimmed_eq_skipped_iff {line : List Char} :
    Line.ofTrimmed line = .skipped ↔ line = [] ∨ line.head? = some '#' := by
  unfold Line.ofTrimmed
  split_ifs with hskip hheader
  · simpa using hskip
  · simpa using hskip
  · simpa using hskip

theorem said?_nil : said? [] = none := rfl

theorem said?_of_idle {line : List Char} (h : Idle line) : said? line = none :=
  if_pos (ofTrimmed_eq_skipped_iff.mpr h.idle)

theorem said?_congr {line line' : List Char} (h : trim line = trim line') :
    said? line = said? line' := by rw [said?, said?, h]

theorem map_trim_numbered (text : List Char) :
    (numbered text).map (fun line => trim line.1) = content text := by
  have hnumbered : ∀ (ls : List (List Char)) (number : ℕ),
      ((ls.zipIdx number).filter fun line => Line.ofTrimmed (trim line.1) ≠ .skipped).map
        (fun line => trim line.1) = ls.filterMap said? := by
    intro ls
    induction ls with
    | nil => exact fun _ => rfl
    | cons line ls ih =>
      intro number
      rw [List.zipIdx_cons, List.filterMap_cons]
      by_cases hskip : Line.ofTrimmed (trim line) = .skipped
      · rw [List.filter_cons_of_neg (by simpa using hskip), ih, said?, if_pos hskip]
      · rw [List.filter_cons_of_pos (by simpa using hskip), List.map_cons, ih, said?, if_neg hskip]
  exact hnumbered (lines text) 1

theorem content_break {c : Char} (hc : isLineBreak c = true) (s t : List Char) :
    content (s ++ c :: t) = content s ++ content t := filterMap_lines_append said?_nil hc s t

theorem content_unbroken {line : List Char} (h : Unbroken line) :
    content line = (said? line).toList := filterMap_lines_unbroken said?_nil h

theorem content_ending {ending : List Char} (h : LineEnd ending) (s t : List Char) :
    content (s ++ ending ++ t) = content s ++ content t := by
  cases h with
  | single hc => rw [List.append_assoc, List.singleton_append, content_break hc]
  | crlf =>
    have hfeed : content ('\n' :: t) = content t := content_break (by decide) [] t
    rw [List.append_assoc, List.cons_append, List.singleton_append,
      content_break (by decide), hfeed]

theorem content_append_of_startsLine {s : List Char} (h : StartsLine s) (t : List Char) :
    content (s ++ t) = content s ++ content t := by
  rcases h with rfl | ⟨text, c, hc, rfl⟩
  · rfl
  · have hlast : content (text ++ [c]) = content text :=
      (content_break hc text []).trans (List.append_nil _)
    rw [List.append_assoc, List.singleton_append, content_break hc, hlast]

theorem content_append_of_endsLine (s : List Char) {t : List Char} (h : EndsLine t) :
    content (s ++ t) = content s ++ content t := by
  rcases h with rfl | ⟨c, text, hc, rfl⟩
  · rw [List.append_nil]
    exact (List.append_nil _).symm
  · have hfirst : content (c :: text) = content text := content_break hc [] text
    rw [content_break hc, hfirst]

theorem trim_padding {left right : List Char} (hleft : Padding left) (hright : Padding right)
    (line : List Char) : trim (left ++ line ++ right) = trim line := by
  rw [trim_append_blanks _ fun c hc => (hright c hc).1,
    trim_blanks_append fun c hc => (hleft c hc).1]

/-- **Edits of the layout leave what the lines say as it is.** -/
theorem content_edit {s t : List Char} (h : LayoutEdit s t) : content s = content t := by
  cases h with
  | @pad before left line right after hstart hline hend hleft hright =>
    have hpadded : Unbroken (left ++ line ++ right) := by
      rw [unbroken_append, unbroken_append]
      exact ⟨⟨fun c hc => (hleft c hc).2, hline⟩, fun c hc => (hright c hc).2⟩
    rw [content_append_of_endsLine _ hend, content_append_of_endsLine _ hend,
      content_append_of_startsLine hstart, content_append_of_startsLine hstart,
      content_unbroken hline, content_unbroken hpadded,
      said?_congr (trim_padding hleft hright line)]
  | @above before line ending after hstart hline hending =>
    have hadded : content (line ++ ending ++ after) = content after := by
      rw [content_ending hending, content_unbroken hline.unbroken, said?_of_idle hline]
      rfl
    rw [List.append_assoc before, content_append_of_startsLine hstart,
      content_append_of_startsLine hstart, hadded]
  | @below before ending line after hend hline hending =>
    have hadded : content (before ++ ending ++ line) = content before := by
      rw [content_ending hending, content_unbroken hline.unbroken, said?_of_idle hline]
      exact List.append_nil _
    rw [← List.append_assoc before, content_append_of_endsLine _ hend,
      content_append_of_endsLine _ hend, hadded]
  | ending h h' => rw [content_ending h, content_ending h']

theorem content_relaid {s t : List Char} (h : Relaid s t) : content s = content t := by
  induction h with
  | rel _ _ hedit => exact content_edit hedit
  | refl _ => rfl
  | symm _ _ _ ih => exact ih.symm
  | trans _ _ _ _ _ ih ih' => exact ih.trans ih'

/-! ### Texts that say the same -/

theorem Relaid.trans {s t u : List Char} (h : Relaid s t) (h' : Relaid t u) : Relaid s u :=
  Relation.EqvGen.trans _ _ _ h h'

theorem Relaid.symm {s t : List Char} (h : Relaid s t) : Relaid t s := Relation.EqvGen.symm _ _ h

theorem LayoutEdit.relaid {s t : List Char} (h : LayoutEdit s t) : Relaid s t := .rel _ _ h

/-- The plain text that says something: one line for each, all ended by line feeds. -/
def plain (said : List (List Char)) : List Char := said.flatMap fun line => line ++ ['\n']

/-- A line may be trimmed. -/
theorem relaid_trim {before line after : List Char} (hstart : StartsLine before)
    (hline : Unbroken line) (hend : EndsLine after) :
    Relaid (before ++ line ++ after) (before ++ trim line ++ after) := by
  obtain ⟨right, hright, heq⟩ := exists_blanks_trimRight (trimLeft line)
  have hcut : line = line.takeWhile isBlank ++ trim line ++ right := by
    rw [List.append_assoc, trim, ← heq]
    exact (List.takeWhile_append_dropWhile).symm
  have hparts : Unbroken (line.takeWhile isBlank ++ trim line ++ right) := hcut ▸ hline
  rw [unbroken_append, unbroken_append] at hparts
  obtain ⟨⟨hl, ht⟩, hr⟩ := hparts
  have hleft : Padding (line.takeWhile isBlank) := fun c hc =>
    ⟨List.all_eq_true.mp (List.all_takeWhile (p := isBlank)) c hc, hl c hc⟩
  have hpad := LayoutEdit.pad hstart ht hend hleft fun c hc => ⟨hright c hc, hr c hc⟩
  rw [← hcut] at hpad
  exact hpad.relaid.symm

theorem lineEnd_newline : LineEnd ['\n'] := .single (by decide)

/-- A line with its end is worth what it says. -/
theorem relaid_line {before line : List Char} (hstart : StartsLine before) (hline : Unbroken line)
    {c : Char} (hc : isLineBreak c = true) (rest : List Char) :
    Relaid (before ++ line ++ c :: rest) (before ++ plain (said? line).toList ++ rest) := by
  have hending : Relaid (before ++ line ++ c :: rest) (before ++ line ++ '\n' :: rest) := by
    have hedit : LayoutEdit (before ++ line ++ [c] ++ rest) (before ++ line ++ ['\n'] ++ rest) :=
      .ending (.single hc) lineEnd_newline
    rw [List.append_assoc (before ++ line), List.append_assoc (before ++ line)] at hedit
    exact hedit.relaid
  refine hending.trans ?_
  by_cases hskip : Line.ofTrimmed (trim line) = .skipped
  · have hidle : Idle line := ⟨hline, ofTrimmed_eq_skipped_iff.mp hskip⟩
    have hedit : LayoutEdit (before ++ rest) (before ++ (line ++ ['\n']) ++ rest) :=
      .above hstart hidle lineEnd_newline
    simpa [said?_of_idle hidle, plain] using hedit.relaid.symm
  · have hsaid : said? line = some (trim line) := if_neg hskip
    have hend : EndsLine ('\n' :: rest) := Or.inr ⟨'\n', rest, by decide, rfl⟩
    simpa [hsaid, plain] using relaid_trim hstart hline hend

theorem startsLine_plain {before : List Char} (hstart : StartsLine before)
    (said : Option (List Char)) : StartsLine (before ++ plain said.toList) := by
  cases said with
  | none => simpa [plain] using hstart
  | some line => exact Or.inr ⟨before ++ line, '\n', by decide, by simp [plain]⟩

/-- Every text can be edited into the plain one that says the same. -/
theorem relaid_plain (s : List Char) {before : List Char} (hstart : StartsLine before) :
    Relaid (before ++ s) (before ++ plain (content s)) := by
  induction s using induction_on_lines generalizing before with
  | last line hline =>
    -- the last line gets an end first
    have hended : LayoutEdit (before ++ line ++ []) (before ++ line ++ (['\n'] ++ []) ++ []) :=
      .below (Or.inl rfl) ⟨unbroken_nil, Or.inl rfl⟩ lineEnd_newline
    have hsaid := relaid_line hstart hline (by decide : isLineBreak '\n' = true) []
    rw [content_unbroken hline]
    simp only [List.append_nil] at hended hsaid
    exact hended.relaid.trans hsaid
  | below line c rest hline hc ih =>
    have hfirst := relaid_line hstart hline hc rest
    have hrest := ih (startsLine_plain hstart (said? line))
    have hplain : plain (content (line ++ c :: rest)) =
        plain (said? line).toList ++ plain (content rest) := by
      rw [content_break hc, content_unbroken hline, plain, plain, plain, List.flatMap_append]
    rw [hplain, ← List.append_assoc, ← List.append_assoc]
    exact hfirst.trans hrest

/-- **Texts are edited into each other exactly if they say the same.** -/
theorem relaid_iff {s t : List Char} : Relaid s t ↔ content s = content t := by
  refine ⟨content_relaid, fun h => ?_⟩
  have hs := relaid_plain s (Or.inl rfl)
  have ht := relaid_plain t (Or.inl rfl)
  rw [← h] at ht
  exact hs.trans ht.symm

/-! ### Reading -/

/-- Two errors report the same line: what they show of it is the same, and it is in its place among
the numbered lines of either text. -/
structure SameLine (ls ls' : List (List Char × ℕ)) (e e' : LineError) : Prop where
  source : e.source = e'.source
  place : ∃ (k : ℕ) (raw raw' : List Char), ls[k]? = some (raw, e.number) ∧
    ls'[k]? = some (raw', e'.number) ∧ e.source = String.ofList (trim raw) ∧
    e'.source = String.ofList (trim raw')

namespace Reader

variable {r next : Reader} {raw raw' : List Char}

theorem readTransition_congr (h : trim raw = trim raw') {state : String} {table table' : Table} :
    readTransition state table (trimLeft raw) = .ok table' ↔
      readTransition state table (trimLeft raw') = .ok table' := by
  have hone : ∀ {raw raw' : List Char}, trim raw = trim raw' →
      readTransition state table (trimLeft raw) = .ok table' →
      readTransition state table (trimLeft raw') = .ok table' := by
    intro raw raw' h hread
    obtain ⟨left, right, hline, hleft, hright, htoken, hne, hnew, d, hd, rfl⟩ :=
      readTransition_eq_ok_iff.mp hread
    -- a cut survives the trimming as long as something follows it
    obtain ⟨right', hline', heq⟩ := (exists_cut_trimLeft_iff hne).mpr
      (h ▸ (exists_cut_trimLeft_iff hne).mp ⟨right, hline, rfl⟩)
    rw [← heq] at hright hne hd
    exact readTransition_eq_ok_iff.mpr
      ⟨left, right', hline', hleft, hright, htoken, hne, hnew, d, hd, rfl⟩
  exact ⟨hone h, hone h.symm⟩

/-- **A line is read like every line with the same trimming.** -/
theorem line_eq_ok_iff (h : trim raw = trim raw') :
    r.line raw = .ok next ↔ r.line raw' = .ok next := by
  have hone : ∀ {raw raw' : List Char}, trim raw = trim raw' → r.line raw = .ok next →
      r.line raw' = .ok next := by
    intro raw raw' h hread
    unfold line at hread ⊢
    rw [Handler.line_eq] at hread ⊢
    rw [← h]
    cases hk : Line.ofTrimmed (trim raw) with
    | skipped => rw [hk] at hread; exact hread
    | header name => rw [hk] at hread; exact hread
    | content text =>
      rw [hk] at hread
      cases hphase : r.phase with
      | general => rw [hphase] at hread; exact hread
      | state =>
        rw [hphase] at hread
        dsimp only [Handler.blockLine] at hread ⊢
        split_ifs at hread ⊢ with hdollar
        · exact hread
        · rw [Handler.transition_eq] at hread ⊢
          cases ht : readTransition r.current ((r.draft.states.find? r.current).getD ∅)
              (trimLeft raw) with
          | error fault => rw [ht] at hread; cases hread
          | ok table =>
            rw [ht] at hread
            rw [(readTransition_congr h).mp ht]
            exact hread
  exact ⟨hone h, hone h.symm⟩

theorem line_of_skipped (h : Line.ofTrimmed (trim raw) = .skipped) : r.line raw = .ok r := by
  unfold line
  rw [Handler.line_eq, h]

/-- Reads numbered lines up to the first malformed one. -/
def read (r : Reader) : List (List Char × ℕ) → Reader × Option LineError
  | [] => (r, none)
  | (raw, number) :: rest =>
    match r.line raw with
    | .ok next => next.read rest
    | .error fault => (r, some ⟨number, String.ofList (trim raw), fault⟩)

theorem lines_eq_read : ∀ (ls : List (List Char)) (r : Reader) (number : ℕ),
    r.lines number ls = r.read (ls.zipIdx number)
  | [], _, _ => rfl
  | raw :: rest, r, number => by
    rw [lines_cons, List.zipIdx_cons, read]
    cases r.line raw with
    | ok next => exact lines_eq_read rest next (number + 1)
    | error fault => rfl

/-- Lines that are passed over might as well not be there. -/
theorem read_filter : ∀ (ls : List (List Char × ℕ)) (r : Reader),
    r.read (ls.filter fun line => Line.ofTrimmed (trim line.1) ≠ .skipped) = r.read ls
  | [], _ => rfl
  | (raw, number) :: rest, r => by
    by_cases hskip : Line.ofTrimmed (trim raw) = .skipped
    · rw [List.filter_cons_of_neg (by simpa using hskip), read_filter rest, read,
        line_of_skipped hskip]
    · rw [List.filter_cons_of_pos (by simpa using hskip), read, read]
      cases r.line raw with
      | ok next => exact read_filter rest next
      | error fault => rfl

theorem lines_eq_read_numbered (r : Reader) (text : List Char) :
    r.lines 1 (Text.lines text) = r.read (numbered text) :=
  (lines_eq_read _ r 1).trans (read_filter _ r).symm

/-- **Reading depends on what the lines say only**: lines that say the same are all read, with the
same result, or the same line of either is reported. -/
theorem read_alike : ∀ {ls ls' : List (List Char × ℕ)} {r : Reader},
    ls.map (fun line => trim line.1) = ls'.map (fun line => trim line.1) →
    (r.read ls).1 = (r.read ls').1 ∧
      ((r.read ls).2 = none ∧ (r.read ls').2 = none ∨
        ∃ e e', (r.read ls).2 = some e ∧ (r.read ls').2 = some e' ∧ SameLine ls ls' e e')
  | [], ls', r, h => by
    obtain rfl : ls' = [] := List.map_eq_nil_iff.mp h.symm
    exact ⟨rfl, Or.inl ⟨rfl, rfl⟩⟩
  | (raw, number) :: ls, [], r, h => by cases h
  | (raw, number) :: ls, (raw', number') :: ls', r, h => by
    obtain ⟨htrim, hrest⟩ := List.cons.inj h
    rw [read, read]
    cases hl : r.line raw with
    | ok next =>
      rw [(line_eq_ok_iff htrim).mp hl]
      obtain ⟨hsame, hnone | ⟨e, e', he, he', hplace⟩⟩ := read_alike (r := next) hrest
      · exact ⟨hsame, Or.inl hnone⟩
      · obtain ⟨hsource, k, line, line', hk, hk', hplace⟩ := hplace
        exact ⟨hsame, Or.inr ⟨e, e', he, he', hsource, k + 1, line, line', hk, hk', hplace⟩⟩
    | error fault =>
      cases hl' : r.line raw' with
      | ok next => rw [(line_eq_ok_iff htrim).mpr hl'] at hl; cases hl
      | error fault' =>
        exact ⟨rfl, Or.inr ⟨_, _, rfl, rfl, congrArg String.ofList htrim, 0, raw, raw', rfl, rfl,
          rfl, rfl⟩⟩

end Reader

/-! ### Programs -/

/-- Two texts have the same program, or are refused for the same inconsistency, or for what stands
on the same line of either. -/
inductive ReadAlike (s t : List Char) : Except Error Program → Except Error Program → Prop
  | program (p : Program) : ReadAlike s t (.ok p) (.ok p)
  | inconsistent (e : Inconsistency) :
      ReadAlike s t (.error (.inconsistent e)) (.error (.inconsistent e))
  | line {e e' : LineError} (h : SameLine (numbered s) (numbered t) e e') :
      ReadAlike s t (.error (.line e)) (.error (.line e'))

/-- **Layout carries no meaning.** -/
theorem parse_relaid {s t : String} (h : Relaid s.toList t.toList) :
    ReadAlike s.toList t.toList (parse s) (parse t) := by
  have hsaid : (numbered s.toList).map (fun line => trim line.1) =
      (numbered t.toList).map (fun line => trim line.1) := by
    rw [map_trim_numbered, map_trim_numbered, content_relaid h]
  unfold parse Reader.parse
  rw [Reader.lines_eq_read_numbered, Reader.lines_eq_read_numbered]
  obtain ⟨hsame, hlines⟩ := Reader.read_alike (r := {}) hsaid
  rcases hs : Reader.read {} (numbered s.toList) with ⟨after, e⟩
  rcases ht : Reader.read {} (numbered t.toList) with ⟨after', e'⟩
  rw [hs, ht] at hsame hlines
  obtain rfl : after = after' := hsame
  rcases hlines with ⟨rfl, rfl⟩ | ⟨e, e', rfl, rfl, hline⟩
  · dsimp only
    cases after.draft.validate with
    | ok p => exact .program p
    | error fault => exact .inconsistent fault
  · exact .line hline

/-- A comment is added above, and the line of a transition without a destination is indented with a
tab: the text is refused for the same line, which is the third one now. -/
theorem parse_relaid_indented :
    Relaid "a:\nx\t".toList "# note\r\na:\n\tx\t".toList ∧
      ReadAlike "a:\nx\t".toList "# note\r\na:\n\tx\t".toList
        (.error (.line ⟨2, "x", .missingDestination⟩))
        (.error (.line ⟨3, "x", .missingDestination⟩)) := by
  have hpad : LayoutEdit "a:\nx\t".toList "a:\n\tx\t".toList :=
    @LayoutEdit.pad "a:\n".toList "\t".toList "x\t".toList [] []
      (Or.inr ⟨"a:".toList, '\n', by decide, rfl⟩) (by decide) (Or.inl rfl) (by decide) (by decide)
  have habove : LayoutEdit "a:\n\tx\t".toList "# note\r\na:\n\tx\t".toList :=
    @LayoutEdit.above [] "# note".toList ['\r', '\n'] "a:\n\tx\t".toList (Or.inl rfl)
      ⟨by decide, Or.inr rfl⟩ .crlf
  have hrelaid := (Relation.EqvGen.rel _ _ hpad).trans _ _ _ (.rel _ _ habove)
  have hs : parse "a:\nx\t" = .error (.line ⟨2, "x", .missingDestination⟩) := by decide +kernel
  have ht : parse "# note\r\na:\n\tx\t" = .error (.line ⟨3, "x", .missingDestination⟩) := by
    decide +kernel
  have halike := parse_relaid (s := "a:\nx\t") (t := "# note\r\na:\n\tx\t") hrelaid
  rw [hs, ht] at halike
  exact ⟨hrelaid, halike⟩

end FiniteAutomata.Listing
