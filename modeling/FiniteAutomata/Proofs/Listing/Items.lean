import FiniteAutomata.Listing.Destination
import FiniteAutomata.Listing.Printer
import FiniteAutomata.Proofs.Decimal.Weights
import FiniteAutomata.Proofs.Text.Pieces

/-! # Items of destination lists

An item is read as the destination and the weight it was printed for, unless its weight is one and
its name holds a hyphen (`readItem_itemText`): such an item is taken for a weighted one, and the
name read from it is shorter (`SpellsItem.length`). The items that are read are those spelled by a
name, or by a numeral and a name with a hyphen between them (`readItem_eq_ok_iff`), and every name
that is read from one is legible again (`SpellsItem.legibleName`). -/

namespace FiniteAutomata.Listing

open Text Decimal

/-- A reference whose spelling stands for it and can be cut out of a line again. -/
structure LegibleName (r : Ref) : Prop where
  spelled : Ref.ofLexeme r.lexeme = r
  solid : Solid r.lexeme.toList
  tabless : '\t' ∉ r.lexeme.toList

/-- The text of an item. -/
def itemText (e : Ref × Float) : String := printItem e.1 (weightText? e.2)

/-! ### Splitting off a weight -/

/-- The spellings of a weighted item: an optional plus sign, the spelling of a numeral, blanks, a
hyphen and a text. A numeral holds a hyphen only as the sign of its exponent, so the hyphen that
ends it is the first one that is not part of an exponent. -/
inductive SpellsWeighted : List Char → Numeral → List Char → Prop where
  | intro {sign spelled gap rest : List Char} {n : Numeral} (hsign : sign = [] ∨ sign = ['+'])
      (hspelled : SpellsNumeral spelled n) (hgap : ∀ c ∈ gap, isBlank c = true) :
      SpellsWeighted (sign ++ (spelled ++ (gap ++ '-' :: rest))) n rest

/-- What is left of an item after its plus sign: a numeral, and a hyphen after blanks. -/
def splitUnsigned? (item : List Char) : Option (Numeral × List Char) :=
  match takeNumeral? item with
  | none => none
  | some (weight, tail) =>
    match tail.dropWhile isBlank with
    | '-' :: name => some (weight, trim name)
    | _ => none

theorem splitWeighted?_plus (rest : List Char) :
    splitWeighted? ('+' :: rest) = splitUnsigned? rest := rfl

theorem splitWeighted?_of_ne {item : List Char} (h : item.head? ≠ some '+') :
    splitWeighted? item = splitUnsigned? item := by
  unfold splitWeighted?
  split
  · exact absurd rfl h
  · rfl

theorem exists_spelling_of_splitUnsigned? {item name : List Char} {n : Numeral}
    (h : splitUnsigned? item = some (n, name)) : ∃ spelled gap rest, SpellsNumeral spelled n ∧
      (∀ c ∈ gap, isBlank c = true) ∧ item = spelled ++ (gap ++ '-' :: rest) ∧ name = trim rest := by
  unfold splitUnsigned? at h
  split at h
  · cases h
  · next weight tail hn =>
    split at h
    · next rest hrest =>
      obtain ⟨rfl, rfl⟩ := Prod.mk.inj (Option.some.inj h)
      obtain ⟨spelled, hspelled, rfl⟩ := exists_spelling_of_takeNumeral? hn
      refine ⟨spelled, tail.takeWhile isBlank, rest, hspelled,
        List.all_eq_true.mp List.all_takeWhile, ?_, rfl⟩
      rw [← hrest, List.takeWhile_append_dropWhile]
    · cases h

theorem splitUnsigned?_of_spelling {spelled gap : List Char} {n : Numeral}
    (hspelled : SpellsNumeral spelled n) (hgap : ∀ c ∈ gap, isBlank c = true) (rest : List Char) :
    splitUnsigned? (spelled ++ (gap ++ '-' :: rest)) = some (n, trim rest) := by
  have hend : EndsNumeral (gap ++ '-' :: rest) := by
    cases gap with
    | nil => exact endsNumeral_hyphen rest
    | cons c gap =>
      intro c' hc'
      obtain rfl := Option.some.inj hc'
      have hblank : ∀ d, isBlank d = false → c ≠ d := by
        rintro d hd rfl
        rw [hgap c List.mem_cons_self] at hd
        cases hd
      refine ⟨Bool.eq_false_iff.mpr fun hd => hblank c (not_blank_of_isDigit hd) rfl,
        hblank '.' (by decide), not_or.mpr ⟨hblank 'e' (by decide), hblank 'E' (by decide)⟩⟩
  have hhyphen : isBlank '-' = false := by decide
  have hdrop : (gap ++ '-' :: rest).dropWhile isBlank = '-' :: rest := by
    rw [List.dropWhile_append_of_pos hgap, List.dropWhile_cons_of_neg (by simp [hhyphen])]
  unfold splitUnsigned?
  rw [takeNumeral?_of_spelling hspelled hend]
  simp only [hdrop]

/-- **An item is split at its hyphen** exactly if it is spelled like a weighted one. -/
theorem splitWeighted?_eq_some_iff {item name : List Char} {n : Numeral} :
    splitWeighted? item = some (n, name) ↔ ∃ rest, SpellsWeighted item n rest ∧ name = trim rest := by
  constructor
  · intro h
    by_cases hplus : item.head? = some '+'
    · obtain ⟨tail, rfl⟩ := List.head?_eq_some_iff.mp hplus
      rw [splitWeighted?_plus] at h
      obtain ⟨spelled, gap, rest, hspelled, hgap, rfl, rfl⟩ := exists_spelling_of_splitUnsigned? h
      exact ⟨rest, .intro (Or.inr rfl) hspelled hgap, rfl⟩
    · rw [splitWeighted?_of_ne hplus] at h
      obtain ⟨spelled, gap, rest, hspelled, hgap, rfl, rfl⟩ := exists_spelling_of_splitUnsigned? h
      exact ⟨rest, .intro (Or.inl rfl) hspelled hgap, rfl⟩
  · rintro ⟨rest, ⟨hsign, hspelled, hgap⟩, rfl⟩
    rcases hsign with rfl | rfl
    · obtain ⟨c, tail, hspelling, hc⟩ := head_of_spells hspelled
      rw [List.nil_append, splitWeighted?_of_ne (by simpa [hspelling] using hc)]
      exact splitUnsigned?_of_spelling hspelled hgap rest
    · rw [List.singleton_append, splitWeighted?_plus]
      exact splitUnsigned?_of_spelling hspelled hgap rest

/-- What follows the hyphen of a weighted item is a later part of it. -/
theorem SpellsWeighted.suffix {item rest : List Char} {n : Numeral} (h : SpellsWeighted item n rest) :
    '-' :: rest <:+ item := by
  cases h
  exact (List.suffix_append _ _).trans ((List.suffix_append _ _).trans (List.suffix_append _ _))

/-- A weight that reads back is split off at the hyphen after it. -/
theorem splitWeighted?_writeCompact {w : Float} (hw : isWeight w = true) (hr : ReadsBack w)
    (name : List Char) : ∃ n : Numeral,
      splitWeighted? ((writeCompact w).toList ++ '-' :: name) = some (n, trim name) ∧
        n.toFloat = w := by
  obtain ⟨n, hn, hv⟩ := takeNumeral?_writeCompact hw hr
  have hgap : ∀ c ∈ ([] : List Char), isBlank c = true := by simp
  have hspelled : SpellsWeighted ((writeCompact w).toList ++ '-' :: name) n name :=
    .intro (Or.inl rfl) (spells_of_takeNumeral? hn) hgap
  exact ⟨n, splitWeighted?_eq_some_iff.mpr ⟨name, hspelled, rfl⟩, hv⟩

/-! ### Reading an item -/

theorem isWeight_one : isWeight 1 = true := by decide +kernel

/-- The spellings of an item and the entry that each stands for: a name without hyphens, of weight
one, or a weighted item with a positive finite weight. The name of a weighted item is one of
`names`. -/
inductive SpellsItem (names : List Char → Prop) : List Char → Ref × Float → Prop where
  | plain {name : List Char} (hne : name ≠ []) (hhyphen : '-' ∉ name) :
      SpellsItem names name (.ofLexeme (String.ofList name), 1)
  | weighted {item rest : List Char} {n : Numeral} (hitem : SpellsWeighted item n rest)
      (hne : trim rest ≠ []) (hname : names (trim rest)) (hweight : isWeight n.toFloat = true) :
      SpellsItem names item (.ofLexeme (String.ofList (trim rest)), n.toFloat)

theorem readItem_of_no_hyphen {item : List Char} (hne : item ≠ []) (hh : '-' ∉ item)
    (position : Nat) : readItem position item = .ok (.ofLexeme (String.ofList item), 1) := by
  unfold readItem
  rw [if_neg (by simpa using hne), if_pos (by simpa using hh)]

theorem readItem_of_weight {item name : List Char} {n : Numeral} (hh : '-' ∈ item)
    (hs : splitWeighted? item = some (n, name)) (hne : name ≠ [])
    (hw : isWeight n.toFloat = true) (position : Nat) :
    readItem position item = .ok (.ofLexeme (String.ofList name), n.toFloat) := by
  unfold readItem
  rw [if_neg (by simpa using List.ne_nil_of_mem hh), if_neg (by simpa using hh)]
  simp only [hs]
  rw [if_neg (by simpa using hne), if_pos hw]

/-- **An item is read** exactly if it is spelled like one, wherever it stands. -/
theorem readItem_eq_ok_iff {position : Nat} {item : List Char} {e : Ref × Float} :
    readItem position item = .ok e ↔ SpellsItem (fun _ => True) item e := by
  constructor
  · intro h
    unfold readItem at h
    split_ifs at h with hempty hhyphen
    · obtain rfl := Except.ok.inj h
      exact .plain (by simpa using hempty) (by simpa using hhyphen)
    · split at h
      · cases h
      · next n name hn =>
        split_ifs at h with hname hweight
        obtain rfl := Except.ok.inj h
        obtain ⟨rest, hitem, rfl⟩ := splitWeighted?_eq_some_iff.mp hn
        exact .weighted hitem (by simpa using hname) trivial hweight
  · intro h
    cases h with
    | plain hne hhyphen => exact readItem_of_no_hyphen hne hhyphen position
    | weighted hitem hne _ hweight =>
      exact readItem_of_weight (hitem.suffix.subset List.mem_cons_self)
        (splitWeighted?_eq_some_iff.mpr ⟨_, hitem, rfl⟩) hne hweight position

namespace SpellsItem

variable {names : List Char → Prop} {item : List Char} {e : Ref × Float}

/-- **What an item stands for**: a positive finite weight, and a name that is the item itself if
the item holds no hyphen, else what follows one of its hyphens. -/
theorem parts (h : SpellsItem names item e) : isWeight e.2 = true ∧
    ∃ name, e.1 = .ofLexeme (String.ofList name) ∧ name ≠ [] ∧
      ('-' ∉ item ∧ name = item ∨ ∃ rest, '-' :: rest <:+ item ∧ name = trim rest) := by
  cases h with
  | plain hne hhyphen => exact ⟨isWeight_one, item, rfl, hne, Or.inl ⟨hhyphen, rfl⟩⟩
  | weighted hitem hne _ hweight =>
    exact ⟨hweight, _, rfl, hne, Or.inr ⟨_, hitem.suffix, rfl⟩⟩

theorem ne_nil (h : SpellsItem names item e) : item ≠ [] := by
  cases h with
  | plain hne => exact hne
  | weighted hitem => exact List.ne_nil_of_mem (hitem.suffix.subset List.mem_cons_self)

theorem subset (h : SpellsItem names item e) : ∀ c ∈ e.1.lexeme.toList, c ∈ item := by
  obtain ⟨-, name, hr, -, hname⟩ := h.parts
  intro c hc
  rw [hr, Ref.lexeme_ofLexeme, String.toList_ofList] at hc
  rcases hname with ⟨-, rfl⟩ | ⟨rest, hsuffix, rfl⟩
  · exact hc
  · exact hsuffix.subset (List.mem_cons_of_mem _ (mem_of_mem_trim hc))

/-- The name of an item is not longer than the item, and shorter if the item holds a hyphen. -/
theorem length (h : SpellsItem names item e) :
    e.1.lexeme.toList.length ≤ item.length ∧
      ('-' ∈ item → e.1.lexeme.toList.length < item.length) := by
  obtain ⟨-, name, hr, -, hname⟩ := h.parts
  rw [hr, Ref.lexeme_ofLexeme, String.toList_ofList]
  rcases hname with ⟨hh, rfl⟩ | ⟨rest, hsuffix, rfl⟩
  · exact ⟨le_rfl, fun hm => absurd hm hh⟩
  · have h1 := length_trim_le rest
    have h2 := hsuffix.length_le
    rw [List.length_cons] at h2
    exact ⟨by omega, fun _ => by omega⟩

/-- **The name of an item is legible.** -/
theorem legibleName (h : SpellsItem names item e) (htrim : trim item = item)
    (hbreak : Unbroken item) (htab : '\t' ∉ item) : LegibleName e.1 := by
  have hsub := h.subset
  obtain ⟨-, name, hr, hne, hname⟩ := h.parts
  rw [hr] at hsub ⊢
  refine ⟨by simp, ⟨?_, ?_, fun c hc => hbreak c (hsub c hc)⟩, fun hc => htab (hsub _ hc)⟩
  · simpa using hne
  · rw [Ref.lexeme_ofLexeme, String.toList_ofList]
    rcases hname with ⟨-, rfl⟩ | ⟨rest, -, rfl⟩
    · exact htrim
    · exact trim_trim rest

end SpellsItem

/-! ### Printing an item -/

theorem toList_itemText_of_one {e : Ref × Float} (h : (e.2 == 1) = true) :
    (itemText e).toList = e.1.lexeme.toList := by simp [itemText, weightText?, h, printItem]

theorem toList_itemText_of_ne {e : Ref × Float} (h : (e.2 == 1) = false) :
    (itemText e).toList = (writeCompact e.2).toList ++ '-' :: e.1.lexeme.toList := by
  simp [itemText, weightText?, h, printItem]

/-- The text of an item is solid, and holds tabs and commas only if the name does. -/
theorem solid_itemText {e : Ref × Float} (hn : LegibleName e.1) (hw : isWeight e.2 = true)
    (hr : ReadsBack e.2) : Solid (itemText e).toList ∧ '	' ∉ (itemText e).toList ∧
      (',' ∉ e.1.lexeme.toList → ',' ∉ (itemText e).toList) := by
  cases h : e.2 == 1 with
  | true =>
    rw [toList_itemText_of_one h]
    exact ⟨hn.solid, hn.tabless, id⟩
  | false =>
    obtain ⟨c, rest, hc, -⟩ := startsWithDigit_writeCompact hw
    have hchars := chars_writeCompact hw hr
    have hsolid : Solid (writeCompact e.2).toList :=
      solid_of_not_blank (by simp [hc]) fun c hc => (hchars c hc).1
    rw [toList_itemText_of_ne h]
    refine ⟨?_, ?_, fun hcomma => ?_⟩
    · have := hsolid.append (m := ['-']) (by simp [isLineBreak]) hn.solid
      simpa using this
    · have hb : '	' ∉ (writeCompact e.2).toList := fun hm =>
        absurd (hchars _ hm).1 (by decide)
      simpa [hb] using hn.tabless
    · have hb : ',' ∉ (writeCompact e.2).toList := fun hm => (hchars _ hm).2 rfl
      simpa [hb] using hcomma

/-- **An item is read as what it was printed for**, unless its weight is one and its name holds a
hyphen. -/
theorem readItem_itemText {e : Ref × Float} (hn : LegibleName e.1) (hw : isWeight e.2 = true)
    (hr : ReadsBack e.2) (hh : (e.2 == 1) = true → '-' ∉ e.1.lexeme.toList) (position : Nat) :
    readItem position (itemText e).toList = .ok e := by
  cases h : e.2 == 1 with
  | true =>
    rw [toList_itemText_of_one h, readItem_of_no_hyphen hn.solid.nonempty (hh h),
      String.ofList_toList, hn.spelled, ← eq_of_beq_of_isWeight hw h]
  | false =>
    obtain ⟨n, hs, hv⟩ := splitWeighted?_writeCompact hw hr e.1.lexeme.toList
    rw [hn.solid.trimmed] at hs
    rw [toList_itemText_of_ne h,
      readItem_of_weight (by simp) hs hn.solid.nonempty (by rwa [hv]), hv, String.ofList_toList,
      hn.spelled]

end FiniteAutomata.Listing
