import FiniteAutomata.Proofs.Listing.Legible

/-! # The grammar of transitions

In the block of a state, a line that is not passed over, no header and no command has to be a
transition: a token that the table of the state does not have yet, a tab, and a destination set,
which is one name or a list of items in brackets (`SpellsDestinations`, `SpellsTransition`). The
lines that are read are exactly those, and reading one adds its token with its destinations to the
table; every other line is reported (`Reader.line_transition_iff`).

Only tabs that blanks alone separate from the first one are not told from it
(`HasPaddedTab`). The name after the hyphen of a weighted item may hold more hyphens, so that the
grammar with hyphenless names is too narrow (`Reader.not_line_transition_hyphenless`). -/

namespace FiniteAutomata.Listing

open Text

variable {names : List Char → Prop} {table : Table} {line raw text : List Char} {token : Token}
  {d : Destinations}

/-! ### Spellings -/

/-- The spellings of a destination set and its entries: one name that does not start with a bracket,
or items between commas in brackets, in which no destination comes twice. The names of weighted
items are among `names`. -/
inductive SpellsDestinations (names : List Char → Prop) :
    List Char → List (Ref × Float) → Prop where
  | bare {name : List Char} (hne : name ≠ []) (hbracket : name.head? ≠ some '[') :
      SpellsDestinations names name [(.ofLexeme (String.ofList name), 1)]
  | list {pieces : List (List Char)} {es : List (Ref × Float)} (hne : pieces ≠ [])
      (hcomma : ∀ p ∈ pieces, ',' ∉ p)
      (hitems : List.Forall₂ (SpellsItem names) (pieces.map trim) es)
      (hdistinct : (Entries.keys es).Nodup) :
      SpellsDestinations names ('[' :: (join [','] pieces ++ [']'])) es

/-- The lines that stand for a transition from a state with a table: a token that the table does not
have, the only tab of the line, and a destination set. -/
inductive SpellsTransition (names : List Char → Prop) (table : Table) :
    List Char → Token → Destinations → Prop where
  | intro {left right : List Char} {d : Destinations} (hleft : '\t' ∉ left) (hright : '\t' ∉ right)
      (htoken : trim left ≠ []) (hnew : Ref.ofLexeme (String.ofList (trim left)) ∉ table)
      (hd : SpellsDestinations names (trim right) d.entries) :
      SpellsTransition names table (left ++ '\t' :: right) (.ofLexeme (String.ofList (trim left))) d

/-- More tabs follow the first one, and blanks alone separate each of them from it. -/
def HasPaddedTab (line : List Char) : Prop :=
  ∃ left right, line = left ++ '\t' :: right ∧ '\t' ∉ left ∧ '\t' ∈ right ∧ '\t' ∉ trim right

theorem hasPaddedTab_iff : HasPaddedTab line ↔
    (splitFirst? '\t' line).any (fun p => '\t' ∈ p.2 ∧ '\t' ∉ trim p.2) = true := by
  rw [Option.any_eq_true]
  constructor
  · rintro ⟨left, right, rfl, hleft, hright, htrim⟩
    exact ⟨(left, right), splitFirst?_append hleft right, decide_eq_true ⟨hright, htrim⟩⟩
  · rintro ⟨⟨left, right⟩, hsplit, h⟩
    obtain ⟨hline, hleft⟩ := eq_of_splitFirst? hsplit
    obtain ⟨hright, htrim⟩ := of_decide_eq_true h
    exact ⟨left, right, hline, hleft, hright, htrim⟩

instance (line : List Char) : Decidable (HasPaddedTab line) :=
  decidable_of_iff _ hasPaddedTab_iff.symm

/-! ### Destination sets -/

theorem SpellsDestinations.ne_nil {es : List (Ref × Float)} (h : SpellsDestinations names text es) :
    text ≠ [] := by
  cases h with
  | bare hne => exact hne
  | list => exact List.cons_ne_nil _ _

/-- **A destination set is read** exactly if it is spelled like one. -/
theorem readDestinations_eq_ok_iff (hne : text ≠ []) :
    readDestinations text = .ok d ↔ SpellsDestinations (fun _ => True) text d.entries := by
  obtain ⟨c, rest, rfl⟩ := List.exists_cons_of_ne_nil hne
  by_cases hc : c = '['
  · subst hc
    constructor
    · intro h
      have hitems := readDestinations_list h
      rw [readDestinations_bracket] at h
      split_ifs at h with hlast
      obtain ⟨body, rfl⟩ := List.getLast?_eq_some_iff.mp hlast
      rw [List.dropLast_concat] at hitems
      have hcomma : ∀ p ∈ splitOn ',' body, ',' ∉ p := fun p hp hc =>
        (mem_of_mem_splitOn hp ',' hc).2 rfl
      have hlist := SpellsDestinations.list (splitOn_ne_nil ',' body) hcomma hitems d.nodup
      rwa [join_splitOn] at hlist
    · intro h
      generalize hes : d.entries = es at h
      generalize htext : '[' :: rest = text at h
      cases h with
      | bare _ hbracket =>
        subst htext
        exact absurd rfl hbracket
      | list hpieces hcomma hitems hdistinct =>
        obtain rfl := (List.cons.inj htext).2
        have hempty : ∀ {items : List (List Char)},
            List.Forall₂ (SpellsItem fun _ => True) items es → items ≠ [[]] := by
          rintro items hitems rfl
          obtain ⟨e, _, hitem, -, -⟩ := List.forall₂_cons_left_iff.mp hitems
          exact hitem.ne_nil rfl
        rw [readDestinations_bracket, List.getLast?_concat, if_pos rfl, List.dropLast_concat,
          splitOn_join hpieces hcomma, if_neg (hempty hitems), readItems_eq_ok_iff]
        exact ⟨es, by rw [hes]; rfl, hdistinct, hitems⟩
  · rw [readDestinations_of_ne hc, Except.ok.injEq]
    constructor
    · rintro rfl
      exact .bare hne (by simpa using hc)
    · intro h
      generalize hes : d.entries = es at h
      generalize htext : c :: rest = text at h
      cases h with
      | bare =>
        subst htext
        exact Dict.ext hes.symm
      | list => exact absurd (List.cons.inj htext).1 hc

/-! ### Transitions -/

/-- **A transition is read** exactly if it has a new token before its first tab and the rest,
trimmed, is spelled like a destination set without tabs. -/
theorem readTransition_eq_ok_iff {state : String} {table' : Table} :
    readTransition state table line = .ok table' ↔
      ∃ left right, line = left ++ '\t' :: right ∧ '\t' ∉ left ∧ '\t' ∉ trim right ∧
        trim left ≠ [] ∧ trim right ≠ [] ∧ Ref.ofLexeme (String.ofList (trim left)) ∉ table ∧
        ∃ d : Destinations, SpellsDestinations (fun _ => True) (trim right) d.entries ∧
          table' = table.insert (.ofLexeme (String.ofList (trim left))) d := by
  constructor
  · intro h
    unfold readTransition at h
    split at h
    · cases h
    · next left right hsplit =>
      obtain ⟨hline, hleft⟩ := eq_of_splitFirst? hsplit
      dsimp only at h
      split_ifs at h with htabs htoken hright hnew
      have hne : trim right ≠ [] := by simpa using hright
      rcases hd : readDestinations (trim right) with fault | d
      · simp [hd, Except.map] at h
      · rw [hd] at h
        exact ⟨left, right, hline, hleft, by simpa using htabs, by simpa using htoken, hne, hnew, d,
          (readDestinations_eq_ok_iff hne).mp hd, (Except.ok.inj h).symm⟩
  · rintro ⟨left, right, rfl, hleft, htabs, htoken, hright, hnew, d, hd, rfl⟩
    unfold readTransition
    rw [splitFirst?_append hleft]
    dsimp only
    rw [if_neg (by simpa using htabs), if_neg (by simpa using htoken), if_neg (by simpa using hright),
      if_neg hnew, (readDestinations_eq_ok_iff hright).mpr hd]
    rfl

/-- The blanks at the right end of a line change nothing about its first tab and what follows it,
unless nothing else follows. -/
theorem exists_cut_trimLeft_iff {left dest : List Char} (hdest : dest ≠ []) :
    (∃ right, trimLeft raw = left ++ '\t' :: right ∧ trim right = dest) ↔
      ∃ right, trim raw = left ++ '\t' :: right ∧ trim right = dest := by
  constructor
  · rintro ⟨right, hcut, rfl⟩
    obtain ⟨blanks, hblanks, hright⟩ := exists_blanks_trimRight right
    have htrim : trim (trimRight right) = trim right := by
      rw [← trim_append_blanks (trimRight right) hblanks, ← hright]
    refine ⟨trimRight right, ?_, htrim⟩
    have hne : trimRight right ≠ [] := by
      intro hnil
      rw [hnil] at htrim
      exact hdest htrim.symm
    rw [trim, hcut, List.append_cons, trimRight_append _ hne, List.append_assoc,
      List.singleton_append]
  · rintro ⟨right, hcut, rfl⟩
    obtain ⟨blanks, hblanks, hline⟩ := exists_blanks_trimRight (trimLeft raw)
    refine ⟨right ++ blanks, ?_, trim_append_blanks right hblanks⟩
    rw [hline, ← trim, hcut, List.append_assoc, List.cons_append]

/-- **A line of a block is read** exactly if, trimmed, it is spelled like a transition, unless it has
a padded tab. -/
theorem readTransition_trimLeft_iff {state : String} {table' : Table}
    (htabs : ¬ HasPaddedTab (trim raw)) : readTransition state table (trimLeft raw) = .ok table' ↔
      ∃ token d, SpellsTransition (fun _ => True) table (trim raw) token d ∧
        table' = table.insert token d := by
  rw [readTransition_eq_ok_iff]
  constructor
  · rintro ⟨left, right, hline, hleft, hright, htoken, hne, hnew, d, hd, rfl⟩
    obtain ⟨right', hline', heq⟩ := (exists_cut_trimLeft_iff hne).mp ⟨right, hline, rfl⟩
    rw [← heq] at hright hd
    have hright' : '\t' ∉ right' := fun hmem => htabs ⟨left, right', hline', hleft, hmem, hright⟩
    exact ⟨_, d, hline' ▸ .intro hleft hright' htoken hnew hd, rfl⟩
  · rintro ⟨token, d, h, rfl⟩
    generalize hline : trim raw = line at h
    cases h with
    | @intro left right _ hleft hright htoken hnew hd =>
      have hne : trim right ≠ [] := hd.ne_nil
      obtain ⟨right', hline', heq⟩ := (exists_cut_trimLeft_iff hne).mpr ⟨right, hline, rfl⟩
      rw [← heq] at hne hd
      have hright' : '\t' ∉ trim right' := heq ▸ fun hmem => hright (mem_of_mem_trim hmem)
      exact ⟨left, right', hline', hleft, hright', htoken, hne, hnew, d, hd, rfl⟩

theorem SpellsTransition.not_mem (h : SpellsTransition names table line token d) :
    token ∉ table.keys := by
  cases h with
  | intro _ _ _ hnew => exact fun hmem => hnew (Dict.mem_iff_mem_keys.mpr hmem)

/-! ### Lines of a block -/

/-- A trimmed line that can be nothing but a transition in the block of a state: it is not empty,
no comment, no header and no command. -/
structure IsTransitionLine (line : List Char) : Prop where
  nonempty : line ≠ []
  uncommented : line.head? ≠ some '#'
  noHeader : isHeader line = false
  noCommand : line.head? ≠ some '$'

instance (line : List Char) : Decidable (IsTransitionLine line) :=
  decidable_of_iff
    (line ≠ [] ∧ line.head? ≠ some '#' ∧ isHeader line = false ∧ line.head? ≠ some '$')
    ⟨fun h => ⟨h.1, h.2.1, h.2.2.1, h.2.2.2⟩,
      fun h => ⟨h.nonempty, h.uncommented, h.noHeader, h.noCommand⟩⟩

namespace Reader

/-- The table of the state whose block is open. -/
def openTable (r : Reader) : Table := (r.draft.states.find? r.current).getD ∅

theorem line_of_transition {r : Reader} (hphase : r.phase = .state)
    (h : IsTransitionLine (trim raw)) : r.line raw =
      (readTransition r.current r.openTable (trimLeft raw)).map (r.withTable r.current) := by
  have hkind : Line.ofTrimmed (trim raw) = .content (trim raw) := by
    have hread : ((trim raw).isEmpty || decide ((trim raw).head? = some '#')) = false := by
      simp [h.nonempty, h.uncommented]
    rw [Line.ofTrimmed, hread, h.noHeader]
    rfl
  unfold Reader.line
  rw [Handler.line_eq, hkind, hphase]
  dsimp only [Handler.blockLine]
  rw [if_neg h.noCommand, Handler.transition_eq, ← openTable]
  cases readTransition r.current r.openTable (trimLeft raw) <;> rfl

/-- **The lines that are read in the block of a state** are the transitions. Of the lines that can be
nothing else, and have no padded tab, exactly those are read that are spelled like one, and the
table of the state gains the token with its destinations as its last entry and nothing else. Any
other is reported with its number and its trimmed text, and leaves the reader as it was. -/
theorem line_transition_iff {r : Reader} (hphase : r.phase = .state)
    (hline : IsTransitionLine (trim raw)) (htabs : ¬ HasPaddedTab (trim raw)) :
    (∀ next, r.line raw = .ok next ↔
        ∃ token d, SpellsTransition (fun _ => True) r.openTable (trim raw) token d ∧
          next = r.withTable r.current (r.openTable.insert token d) ∧
          (r.openTable.insert token d).entries = r.openTable.entries ++ [(token, d)]) ∧
      ((∀ token d, ¬ SpellsTransition (fun _ => True) r.openTable (trim raw) token d) →
        ∃ fault, ∀ number rest,
          r.lines number (raw :: rest) = (r, some ⟨number, String.ofList (trim raw), fault⟩)) := by
  have hread := line_of_transition hphase hline
  refine ⟨fun next => ?_, fun hno => ?_⟩
  · constructor
    · intro h
      rw [hread] at h
      rcases ht : readTransition r.current r.openTable (trimLeft raw) with fault | table
      · rw [ht] at h
        cases h
      · obtain ⟨token, d, hspelled, rfl⟩ := (readTransition_trimLeft_iff htabs).mp ht
        rw [ht] at h
        exact ⟨token, d, hspelled, (Except.ok.inj h).symm,
          Dict.entries_insert_of_not_mem d hspelled.not_mem⟩
    · rintro ⟨token, d, hspelled, rfl, -⟩
      rw [hread, (readTransition_trimLeft_iff htabs).mpr ⟨token, d, hspelled, rfl⟩]
      rfl
  · rcases ht : readTransition r.current r.openTable (trimLeft raw) with fault | table
    · refine ⟨fault, fun number rest => ?_⟩
      rw [lines_cons, hread, ht]
      rfl
    · obtain ⟨token, d, hspelled, -⟩ := (readTransition_trimLeft_iff htabs).mp ht
      exact absurd hspelled (hno token d)

/-- A reader in the block of a state that has no transitions yet. -/
def inBlock : Reader := Reader.opened {} "c"

/-- A line with blanks at its ends and around its weight, which has an exponent, and with a hyphen
in the name behind it. -/
def weightedLine : List Char := "\tx \t [+5e-1 - a-b, null] ".toList

/-- The reader after `weightedLine`. -/
def afterWeighted : Reader :=
  inBlock.withTable "c"
    (Dict.ofList [(.named "x", Dict.ofList [(.named "a-b", 0.5), (.null, 1)])])

theorem line_transition_iff_weighted :
    inBlock.phase = .state ∧ IsTransitionLine (trim weightedLine) ∧
      ¬ HasPaddedTab (trim weightedLine) ∧ inBlock.line weightedLine = .ok afterWeighted ∧
      ∃ token d, SpellsTransition (fun _ => True) inBlock.openTable (trim weightedLine) token d ∧
        afterWeighted = inBlock.withTable inBlock.current (inBlock.openTable.insert token d) := by
  have hphase : inBlock.phase = .state := rfl
  have hline : IsTransitionLine (trim weightedLine) := by decide +kernel
  have htabs : ¬ HasPaddedTab (trim weightedLine) := by decide +kernel
  have hread : inBlock.line weightedLine = .ok afterWeighted := by rfl
  obtain ⟨token, d, hspelled, hnext, -⟩ :=
    ((line_transition_iff hphase hline htabs).1 afterWeighted).mp hread
  exact ⟨hphase, hline, htabs, hread, token, d, hspelled, hnext⟩

/-- **Names of weighted items may hold hyphens**: a line is read although its only item has a name
with a hyphen behind its weight. -/
theorem not_line_transition_hyphenless : ¬ ∀ (r : Reader) (raw : List Char), r.phase = .state →
    IsTransitionLine (trim raw) → ((∃ next, r.line raw = .ok next) ↔
      ∃ token d, SpellsTransition (fun name => '-' ∉ name) r.openTable (trim raw) token d) := by
  intro h
  have hread : ∃ next, inBlock.line "x\t[2-a-b]".toList = .ok next := ⟨_, rfl⟩
  obtain ⟨token, d, hspelled⟩ :=
    (h inBlock "x\t[2-a-b]".toList rfl (by decide +kernel)).mp hread
  generalize hline : trim "x\t[2-a-b]".toList = line at hspelled
  cases hspelled with
  | @intro left right _ hleft _ _ _ hd =>
    -- the first tab leaves the list, the list its only item, and the item the name behind its weight
    have hright : right = "[2-a-b]".toList := by
      have hcut : some (left, right) = some (['x'], "[2-a-b]".toList) := by
        rw [← splitFirst?_append hleft right, ← hline]
        rfl
      exact (Prod.mk.inj (Option.some.inj hcut)).2
    have htext : trim right = "[2-a-b]".toList := by rw [hright]; rfl
    generalize trim right = text at htext hd
    generalize d.entries = es at hd
    cases hd with
    | bare _ hbracket =>
      rw [htext] at hbracket
      exact hbracket rfl
    | @list pieces _ hne hcomma hitems =>
      have hpieces : pieces = ["2-a-b".toList] := by
        have hjoin : join [','] pieces = "2-a-b".toList :=
          (List.append_inj' (List.cons.inj htext).2 rfl).1
        rw [← splitOn_join hne hcomma, hjoin]
        rfl
      rw [hpieces] at hitems
      obtain ⟨e, _, hitem, -, -⟩ := List.forall₂_cons_left_iff.mp hitems
      cases hitem with
      | plain _ hhyphen => exact hhyphen (by decide)
      | @weighted rest n hitem _ hname =>
        have hsplit : some (n, trim rest) = some (⟨['2'], [], 0⟩, "a-b".toList) := by
          rw [← splitWeighted?_eq_some_iff.mpr ⟨rest, hitem, rfl⟩]
          rfl
        rw [(Prod.mk.inj (Option.some.inj hsplit)).2] at hname
        exact hname (by decide)

end Reader

end FiniteAutomata.Listing
