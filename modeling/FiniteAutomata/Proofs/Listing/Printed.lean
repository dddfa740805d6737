import FiniteAutomata.Proofs.Listing.Legible

/-! # Printed lines

How a reader takes each line that is printed for legible parts: an assignment sets its variable
unless it is taken for a header (`line_setting`), a header opens the block of its state
(`line_header`), a command is added to the open state (`line_command`), and a transition adds what
is read from its destination set (`line_transition`). -/

namespace FiniteAutomata.Listing

open Text

/-! ### Assignments -/

/-- The text of a value. -/
def valueText : Setting → List Char
  | .literal text => text.toList
  | .array items => '[' :: (List.intercalate [',', ' '] (items.map String.toList) ++ [']'])

theorem toList_printSetting (key : String) (value : Setting) :
    (printSetting key value).toList = key.toList ++ [' ', '='] ++ ' ' :: valueText value := by
  cases value with
  | literal text => simp [printSetting, printLiteral, valueText, String.toList_append]
  | array items =>
    simp [printSetting, printArray, valueText, String.toList_append, String.toList_intercalate]

theorem solid_valueText {value : Setting} (h : LegibleSetting value) : Solid (valueText value) := by
  cases value with
  | literal text => exact h.1
  | array items =>
    have hopen : Solid ['['] := by decide
    have hclose : Solid [']'] := by decide
    refine hopen.append (unbroken_intercalate (by decide) fun p hp => ?_) hclose
    obtain ⟨item, hitem, rfl⟩ := List.mem_map.mp hp
    exact (h item hitem).1.unbroken

/-- **A legible value is read from its text.** -/
theorem readSetting_valueText {value : Setting} (h : LegibleSetting value) :
    readSetting (valueText value) = .ok value := by
  cases value with
  | literal text =>
    obtain ⟨c, rest, hc, -⟩ := h.1.head
    have hbracket : c ≠ '[' := by
      rintro rfl
      exact h.2 (by rw [hc]; rfl)
    rw [valueText, ← String.ofList_toList (s := text), hc]
    simp [readSetting, hbracket]
  | array items =>
    have hclose : ']' ∉ List.intercalate [',', ' '] (items.map String.toList) := by
      intro hm
      rcases mem_intercalate hm with hm | ⟨p, hp, hm⟩
      · exact absurd hm (by decide)
      · obtain ⟨item, hitem, rfl⟩ := List.mem_map.mp hp
        exact (h item hitem).2.2 hm
    have hitems : commaItems (List.intercalate [',', ' '] (items.map String.toList)) =
        items.map String.toList := by
      refine commaItems_intercalate fun p hp => ?_
      obtain ⟨item, hitem, rfl⟩ := List.mem_map.mp hp
      exact ⟨(h item hitem).1, (h item hitem).2.1⟩
    simp only [valueText, readSetting, readArray, splitFirst?_append hclose, hitems]
    simp [trim, trimRight_eq, Except.map, List.map_map, Function.comp_def]

/-- A blank after a solid text is dropped by trimming. -/
theorem trim_append_blank {s : List Char} (hs : Solid s) {c : Char} (hc : isBlank c = true) :
    trim (s ++ [c]) = s := by
  obtain ⟨x, rest, rfl, hx⟩ := hs.head
  have ht := hs.trimmed
  rw [trim, trimLeft_of_not_blank _ hx] at ht
  rw [List.cons_append, trim, trimLeft_of_not_blank _ hx, trimRight_eq]
  rw [trimRight_eq] at ht
  rwa [← List.cons_append, List.reverse_append, List.reverse_singleton, List.singleton_append,
    trimLeft_cons_blank _ hc]

theorem readAssignment_printSetting {key : String} {value : Setting} (hk : LegibleKey key)
    (hv : LegibleSetting value) :
    readAssignment (printSetting key value).toList = .ok (key, value) := by
  have hsign : '=' ∉ key.toList ++ [' '] := by simpa using hk.signless
  have hcut : key.toList ++ [' ', '='] ++ ' ' :: valueText value =
      (key.toList ++ [' ']) ++ '=' :: ' ' :: valueText value := by simp
  have hkey : trim (key.toList ++ [' ']) = key.toList := trim_append_blank hk.solid (by decide)
  have hvalue : trim (' ' :: valueText value) = valueText value := by
    rw [trim_cons_blank _ (by decide), (solid_valueText hv).trimmed]
  unfold readAssignment
  rw [toList_printSetting, hcut, splitFirst?_append hsign]
  simp only [hkey, hvalue]
  rw [if_neg (by simpa using hk.solid.nonempty),
    if_neg (by simpa using (solid_valueText hv).nonempty), readSetting_valueText hv,
    String.ofList_toList]
  rfl

theorem solid_printSetting {key : String} {value : Setting} (hk : LegibleKey key)
    (hv : LegibleSetting value) : Solid (printSetting key value).toList := by
  have hglue : Unbroken [' ', '=', ' '] := by decide
  have := hk.solid.append hglue (solid_valueText hv)
  rw [toList_printSetting]
  simpa using this

/-- A text that starts with one solid text has the same first character. -/
theorem head?_append_of_solid {s : List Char} (hs : Solid s) (rest : List Char) :
    (s ++ rest).head? = s.head? := by
  obtain ⟨c, tail, rfl, -⟩ := hs.head
  rfl

theorem ofTrimmed_of_solid {line : List Char} (hs : Solid line) (hhash : line.head? ≠ some '#') :
    Line.ofTrimmed line =
      if isHeader line then .header (trim line.dropLast) else .content line := by
  have hne : (line.isEmpty || decide (line.head? = some '#')) = false := by
    simp [hs.nonempty, hhash]
  rw [Line.ofTrimmed, hne]
  rfl

/-- **A printed assignment sets its variable** before the first block, unless it looks like a
header. -/
theorem line_setting {r : Reader} {key : String} {value : Setting} (hk : LegibleKey key)
    (hv : LegibleSetting value) (hr : r.phase = .general)
    (hh : isHeader (printSetting key value).toList = false) :
    r.line (printSetting key value).toList = .ok (r.withVar key value) := by
  have hs := solid_printSetting hk hv
  have hhead : (printSetting key value).toList.head? ≠ some '#' := by
    rw [toList_printSetting, List.append_assoc, head?_append_of_solid hk.solid]
    exact hk.uncommented
  rw [Reader.line, Handler.line_eq, hs.trimmed, ofTrimmed_of_solid hs hhead, hh, hr]
  simp only [Bool.false_eq_true, if_false, Handler.assign_eq, readAssignment_printSetting hk hv]

/-! ### Headers -/

theorem ofTrimmed_header {state : String} (hs : LegibleState state) :
    trim (state ++ ":").toList = (state ++ ":").toList ∧
      Line.ofTrimmed (state ++ ":").toList = .header state.toList := by
  have hcolon : Solid [':'] := by decide
  have htext : (state ++ ":").toList = state.toList ++ [':'] := by simp [String.toList_append]
  have hsolid : Solid (state.toList ++ [':']) := by
    simpa using hs.solid.append unbroken_nil hcolon
  have hhead : (state.toList ++ [':']).head? ≠ some '#' := by
    rw [head?_append_of_solid hs.solid]
    exact hs.uncommented
  have hheader : isHeader (state.toList ++ [':']) = true :=
    isHeader_iff.mpr ⟨state.toList, rfl, hs.colonless, hs.tabless⟩
  rw [htext]
  refine ⟨hsolid.trimmed, ?_⟩
  rw [ofTrimmed_of_solid hsolid hhead, hheader, if_pos rfl, List.dropLast_concat, hs.solid.trimmed]

/-- **A printed header opens the block** of a state that is new. -/
theorem line_header {r : Reader} {state : String} (hs : LegibleState state)
    (hr : state ∉ r.draft.states.keys) : r.line (state ++ ":").toList = .ok (r.opened state) := by
  obtain ⟨htrim, hheader⟩ := ofTrimmed_header hs
  have hnew : ¬ state ∈ r.draft.states := fun hm => hr (Dict.mem_iff_mem_keys.mp hm)
  rw [Reader.line, Handler.line_eq, htrim, hheader]
  simp only [Handler.openState_eq, String.ofList_toList, hs.unreserved, Bool.false_eq_true,
    if_false, hnew]
  rw [if_neg (by simpa using hs.solid.nonempty)]

/-! ### Commands -/

theorem toList_commandText (c : Command) : c.text.toList = '$' :: (c.name.toList ++
    '(' :: (List.intercalate [',', ' '] (c.args.map String.toList) ++ [')'])) := by
  simp [Command.text, String.toList_append, String.toList_intercalate]

theorem not_lineBreak_of_isWord {c : Char} (h : isWord c = true) : isLineBreak c = false := by
  have hall : ∀ n ∈ [10, 11, 12, 13, 28, 29, 30, 0x85, 0x2028, 0x2029],
      isWord (Char.ofNat n) = false := by decide +kernel
  by_contra hbreak
  have hmem : c.toNat ∈ [10, 11, 12, 13, 28, 29, 30, 0x85, 0x2028, 0x2029] := by
    simp only [isLineBreak, Bool.not_eq_false, Bool.or_eq_true, Bool.and_eq_true,
      decide_eq_true_eq, beq_iff_eq] at hbreak
    simp only [List.mem_cons, List.not_mem_nil, or_false]
    omega
  have := hall _ hmem
  rw [Char.ofNat_toNat, h] at this
  exact absurd this (by decide)

/-- **A legible command is read from its text.** -/
theorem readCommand?_text {c : Command} (hc : LegibleCommand c) :
    readCommand? c.text.toList = some c := by
  have hparen : isWord '(' = false := by decide +kernel
  have hblank : isBlank '(' = false := by decide
  have hitems : commaItems (List.intercalate [',', ' '] (c.args.map String.toList)) =
      c.args.map String.toList := by
    refine commaItems_intercalate fun p hp => ?_
    obtain ⟨arg, harg, rfl⟩ := List.mem_map.mp hp
    exact hc.args arg harg
  rw [toList_commandText]
  unfold readCommand?
  simp only [List.takeWhile_append_of_pos hc.word, List.dropWhile_append_of_pos hc.word,
    List.takeWhile_cons, List.dropWhile_cons, hparen, hblank, Bool.false_eq_true, if_false,
    List.append_nil, List.getLast?_concat, List.dropLast_concat, if_true, hitems]
  rw [if_neg (by simpa using hc.nonempty)]
  simp [List.map_map, Function.comp_def]

theorem solid_commandText {c : Command} (hc : LegibleCommand c) : Solid c.text.toList := by
  have hopen : Solid ['$'] := by decide
  have hclose : Solid [')'] := by decide
  have hargs : Unbroken (List.intercalate [',', ' '] (c.args.map String.toList)) := by
    refine unbroken_intercalate (by decide) fun p hp => ?_
    obtain ⟨arg, harg, rfl⟩ := List.mem_map.mp hp
    exact (hc.args arg harg).1.unbroken
  have hinner : Unbroken (c.name.toList ++
      '(' :: List.intercalate [',', ' '] (c.args.map String.toList)) :=
    unbroken_append.mpr ⟨fun x hx => not_lineBreak_of_isWord (hc.word x hx),
      unbroken_cons.mpr ⟨by decide, hargs⟩⟩
  have := hopen.append hinner hclose
  rw [toList_commandText]
  simpa using this

/-- A line that does not end in a colon is no header. -/
theorem isHeader_of_getLast?_ne {line : List Char} (h : line.getLast? ≠ some ':') :
    isHeader line = false := by simp [isHeader, h]

theorem ofTrimmed_command {c : Command} (hc : LegibleCommand c) :
    Line.ofTrimmed c.text.toList = .content c.text.toList := by
  have hheader : isHeader c.text.toList = false := by
    refine isHeader_of_getLast?_ne ?_
    rw [toList_commandText, ← List.cons_append, ← List.cons_append, ← List.append_assoc,
      List.getLast?_concat]
    decide
  rw [ofTrimmed_of_solid (solid_commandText hc) (by rw [toList_commandText]; simp), hheader]
  rfl

theorem toList_indented (text : String) : ("\t" ++ text).toList = '\t' :: text.toList := by
  simp [String.toList_append]

theorem trim_indented {text : String} (h : Solid text.toList) :
    trim ("\t" ++ text).toList = text.toList := by
  rw [toList_indented, trim_cons_blank _ (by decide), h.trimmed]

/-- The block of a state is open, and its lines are expected. -/
def Reader.Opens (r : Reader) (state : String) : Prop := r.phase = .state ∧ r.block = some state

theorem Reader.Opens.current {r : Reader} {state : String} (h : r.Opens state) :
    r.current = state := by
  rw [Reader.current, h.2, Option.getD_some]

/-- **A printed command is added to the open state.** -/
theorem line_command {r : Reader} {state : String} {c : Command} (hc : LegibleCommand c)
    (hr : r.Opens state) : r.line ("\t" ++ c.text).toList = .ok (r.addCommand state c) := by
  have hdollar : c.text.toList.head? = some '$' := by rw [toList_commandText]; rfl
  rw [Reader.line, Handler.line_eq, trim_indented (solid_commandText hc), ofTrimmed_command hc,
    hr.1]
  dsimp only [Handler.blockLine]
  rw [if_pos hdollar, Handler.command_eq, readCommand?_text hc, hr.current]

/-! ### Transitions -/

variable {token : Token} {d : Destinations}

theorem toList_printTransition (token : Token) (d : Destinations) :
    (printTransition token d).toList =
      token.lexeme.toList ++ '\t' :: (printDestinations d).toList := by
  simp [printTransition, String.toList_append]

theorem solid_printTransition (ht : LegibleToken token) (hd : LegibleDestinations d)
    (hw : ∀ e ∈ d.entries, Decimal.ReadsBack e.2) : Solid (printTransition token d).toList := by
  have hglue : Unbroken ['\t'] := by decide
  have := ht.solid.append hglue (solid_printDestinations hd hw).1
  rw [toList_printTransition]
  simpa using this

theorem ofTrimmed_transition (ht : LegibleToken token) (hd : LegibleDestinations d)
    (hw : ∀ e ∈ d.entries, Decimal.ReadsBack e.2) :
    Line.ofTrimmed (printTransition token d).toList =
      .content (printTransition token d).toList := by
  have hheader : isHeader (printTransition token d).toList = false := by
    rw [toList_printTransition]
    simp [isHeader]
  have hhash : (printTransition token d).toList.head? ≠ some '#' := by
    rw [toList_printTransition, head?_append_of_solid ht.solid]
    exact ht.uncommented
  rw [ofTrimmed_of_solid (solid_printTransition ht hd hw) hhash, hheader]
  rfl

/-- **A printed transition adds what is read from its destination set.** -/
theorem line_transition {r : Reader} {state : String} {table : Table} (ht : LegibleToken token)
    (hd : LegibleDestinations d) (hw : ∀ e ∈ d.entries, Decimal.ReadsBack e.2)
    (hr : r.Opens state) (hfind : r.draft.states.find? state = some table)
    (hnew : token ∉ table.keys) : r.line ("\t" ++ printTransition token d).toList =
      (readDestinations (printDestinations d).toList).map
        fun d' => r.withTable state (table.insert token d') := by
  have hs := solid_printTransition ht hd hw
  obtain ⟨hsolid, htabs⟩ := solid_printDestinations hd hw
  have hdollar : (printTransition token d).toList.head? ≠ some '$' := by
    rw [toList_printTransition, head?_append_of_solid ht.solid]
    exact ht.noCommand
  have hleft : trimLeft ("\t" ++ printTransition token d).toList =
      (printTransition token d).toList := by
    rw [toList_indented, trimLeft_cons_blank _ (by decide), hs.trimLeft_eq]
  have hmem : ¬ token ∈ table := fun hm => hnew (Dict.mem_iff_mem_keys.mp hm)
  rw [Reader.line, Handler.line_eq, trim_indented hs, ofTrimmed_transition ht hd hw, hr.1]
  dsimp only [Handler.blockLine]
  rw [if_neg hdollar, Handler.transition_eq, hr.current, hleft, hfind, Option.getD_some,
    toList_printTransition]
  simp only [readTransition, splitFirst?_append ht.tabless, ht.solid.trimmed, hsolid.trimmed,
    String.ofList_toList, ht.spelled]
  rw [if_neg (by simpa using htabs), if_neg (by simpa using ht.solid.nonempty),
    if_neg (by simpa using hsolid.nonempty), if_neg hmem]
  cases readDestinations (printDestinations d).toList with
  | error e => rfl
  | ok d' => rfl

end FiniteAutomata.Listing
