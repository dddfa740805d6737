import FiniteAutomata.Proofs.Decimal.RoundTrip
import FiniteAutomata.Proofs.Listing.Items
import Mathlib.Computability.Language

/-! # Weighted items split back

An item with a weight is matched by a pattern: a weight, a hyphen that may have blanks around it,
and a name up to the end of the line (`WeightedMatch`). The texts of the pattern of a weight are the
spellings of a weight (`mem_weightPattern`), and the items that are split are those that match
(`splitWeighted?_iff_match`).

A weight holds no hyphen but the sign of its exponent, so every match cuts the item at its first
hyphen that is no such sign (`WeightedMatch.isSeparator`). A text has only one such hyphen, so
matches differ in no more than the blanks before the name (`WeightedMatch.unique`), and what is
written for a weight and a name is split into these again, whatever the name looks like
(`weighted_items_split`). -/

namespace FiniteAutomata.Listing

open Text Decimal
open scoped Computability

/-! ### The pattern of a weight -/

/-- The texts of one character of a class. -/
def oneOf (p : Char → Bool) : Language Char := {s | ∃ c, p c = true ∧ s = [c]}

/-- The texts of one or more digits. -/
def someDigits : Language Char := oneOf isDigit * (oneOf isDigit)∗

/-- The pattern of a mantissa: digits, possibly with a point and more digits, or a point and
digits. -/
def mantissaPattern : Language Char :=
  someDigits * (1 + {['.']} * (oneOf isDigit)∗) + {['.']} * someDigits

/-- The pattern of an exponent: a mark, possibly a sign, and digits. -/
def exponentPattern : Language Char :=
  oneOf (· ∈ ['e', 'E']) * (1 + oneOf (· ∈ ['-', '+'])) * someDigits

/-- The pattern of a weight: possibly a plus sign, a mantissa, and possibly an exponent. -/
def weightPattern : Language Char := (1 + {['+']}) * mantissaPattern * (1 + exponentPattern)

theorem mem_kstar_oneOf {p : Char → Bool} {s : List Char} :
    s ∈ (oneOf p)∗ ↔ ∀ c ∈ s, p c = true := by
  rw [Language.mem_kstar]
  constructor
  · rintro ⟨l, rfl, hl⟩ c hc
    obtain ⟨piece, hpiece, hc⟩ := List.mem_flatten.mp hc
    obtain ⟨d, hd, rfl⟩ := hl piece hpiece
    obtain rfl := List.mem_singleton.mp hc
    exact hd
  · intro h
    refine ⟨s.map fun c => [c], (List.flatMap_singleton' s).symm, fun piece hpiece => ?_⟩
    obtain ⟨c, hc, rfl⟩ := List.mem_map.mp hpiece
    exact ⟨c, h c hc, rfl⟩

theorem mem_someDigits {s : List Char} : s ∈ someDigits ↔ s ≠ [] ∧ Digits s := by
  constructor
  · rintro ⟨_, ⟨c, hc, rfl⟩, rest, hrest, rfl⟩
    refine ⟨List.cons_ne_nil c rest, fun d hd => ?_⟩
    rcases List.mem_cons.mp hd with rfl | hd
    · exact hc
    · exact mem_kstar_oneOf.mp hrest d hd
  · rintro ⟨hne, hdigits⟩
    obtain ⟨c, rest, rfl⟩ := List.exists_cons_of_ne_nil hne
    refine ⟨[c], ⟨c, hdigits c List.mem_cons_self, rfl⟩, rest, ?_, rfl⟩
    exact mem_kstar_oneOf.mpr fun d hd => hdigits d (List.mem_cons_of_mem c hd)

theorem mem_exponentPattern {s : List Char} :
    s ∈ 1 + exponentPattern ↔ ∃ e, SpellsExponent s e := by
  constructor
  · rintro (rfl | ⟨_, ⟨_, ⟨mark, hmark, rfl⟩, sign, hsign, rfl⟩, digits, hdigits, rfl⟩)
    · exact ⟨0, .missing⟩
    · obtain ⟨hne, hdigits⟩ := mem_someDigits.mp hdigits
      have hmark : mark = 'e' ∨ mark = 'E' := by simpa using hmark
      rcases hsign with rfl | ⟨c, hc, rfl⟩
      · exact ⟨_, .positive hmark (Or.inl rfl) hne hdigits⟩
      · have hc : c = '-' ∨ c = '+' := by simpa using hc
        rcases hc with rfl | rfl
        · exact ⟨_, .negative hmark hne hdigits⟩
        · exact ⟨_, .positive hmark (Or.inr rfl) hne hdigits⟩
  · have hmem : ∀ {mark : Char} {sign digits : List Char}, mark = 'e' ∨ mark = 'E' →
        sign ∈ 1 + oneOf (· ∈ ['-', '+']) → digits ≠ [] → Digits digits →
          mark :: (sign ++ digits) ∈ 1 + exponentPattern := by
      intro mark sign digits hmark hsign hne hdigits
      have hmark : [mark] ∈ oneOf (· ∈ ['e', 'E']) := ⟨mark, by simpa using hmark, rfl⟩
      exact Or.inr (Language.append_mem_mul (Language.append_mem_mul hmark hsign)
        (mem_someDigits.mpr ⟨hne, hdigits⟩))
    rintro ⟨e, h⟩
    cases h with
    | missing => exact Or.inl rfl
    | positive hmark hsign hne hdigits =>
      refine hmem hmark ?_ hne hdigits
      rcases hsign with rfl | rfl
      · exact Or.inl rfl
      · exact Or.inr ⟨'+', by decide, rfl⟩
    | negative hmark hne hdigits => exact hmem hmark (Or.inr ⟨'-', by decide, rfl⟩) hne hdigits

theorem mem_mantissaPattern {s : List Char} :
    s ∈ mantissaPattern ↔ (s ≠ [] ∧ Digits s) ∨ ∃ whole fraction, s = whole ++ '.' :: fraction ∧
      (whole ≠ [] ∨ fraction ≠ []) ∧ Digits whole ∧ Digits fraction := by
  constructor
  · rintro (⟨whole, hwhole, _, hfraction, rfl⟩ | ⟨_, rfl, fraction, hfraction, rfl⟩)
    · obtain ⟨hne, hwhole⟩ := mem_someDigits.mp hwhole
      rcases hfraction with rfl | ⟨_, rfl, fraction, hfraction, rfl⟩
      · exact Or.inl (by simpa using ⟨hne, hwhole⟩)
      · exact Or.inr ⟨whole, fraction, rfl, Or.inl hne, hwhole, mem_kstar_oneOf.mp hfraction⟩
    · obtain ⟨hne, hfraction⟩ := mem_someDigits.mp hfraction
      have hnone : Digits [] := fun _ hc => absurd hc List.not_mem_nil
      exact Or.inr ⟨[], fraction, rfl, Or.inr hne, hnone, hfraction⟩
  · rintro (h | ⟨whole, fraction, rfl, hne, hwhole, hfraction⟩)
    · have hnone : [] ∈ 1 + ({['.']} : Language Char) * (oneOf isDigit)∗ := Or.inl rfl
      have hmem := Language.append_mem_mul (mem_someDigits.mpr h) hnone
      rw [List.append_nil] at hmem
      exact Or.inl hmem
    · have hpoint : ['.'] ∈ ({['.']} : Language Char) := Set.mem_singleton _
      cases whole with
      | nil =>
        have hne : fraction ≠ [] := hne.resolve_left fun h => h rfl
        have hmem := Language.append_mem_mul hpoint (mem_someDigits.mpr ⟨hne, hfraction⟩)
        exact Or.inr hmem
      | cons c whole =>
        have htail := Language.append_mem_mul hpoint (mem_kstar_oneOf.mpr hfraction)
        have hsome := mem_someDigits.mpr ⟨List.cons_ne_nil c whole, hwhole⟩
        exact Or.inl (Language.append_mem_mul hsome (Or.inr htail))

/-- The spellings of a weight: the spelling of a numeral, possibly with a plus sign before it. -/
inductive SpellsWeight : List Char → Numeral → Prop where
  | intro {sign spelled : List Char} {n : Numeral} (hsign : sign = [] ∨ sign = ['+'])
      (hspelled : SpellsNumeral spelled n) : SpellsWeight (sign ++ spelled) n

/-- **The texts of the pattern** are the spellings of a weight. -/
theorem mem_weightPattern {s : List Char} : s ∈ weightPattern ↔ ∃ n, SpellsWeight s n := by
  constructor
  · rintro ⟨_, ⟨sign, hsign, _, hbody, rfl⟩, mark, hmark, rfl⟩
    obtain ⟨e, hmark⟩ := mem_exponentPattern.mp hmark
    dsimp only
    rw [List.append_assoc]
    rcases mem_mantissaPattern.mp hbody with
      ⟨hne, hwhole⟩ | ⟨whole, fraction, rfl, hne, hwhole, hfraction⟩
    · exact ⟨_, .intro hsign (.integral hne hwhole hmark)⟩
    · rw [List.append_assoc, List.cons_append]
      exact ⟨_, .intro hsign (.fractional hne hwhole hfraction hmark)⟩
  · have hmem : ∀ {sign mantissa mark : List Char} {e : Int}, sign = [] ∨ sign = ['+'] →
        mantissa ∈ mantissaPattern → SpellsExponent mark e →
          sign ++ (mantissa ++ mark) ∈ weightPattern := by
      intro sign mantissa mark e hsign hmantissa hmark
      rw [← List.append_assoc]
      exact Language.append_mem_mul (Language.append_mem_mul hsign hmantissa)
        (mem_exponentPattern.mpr ⟨e, hmark⟩)
    rintro ⟨n, ⟨hsign, hspelled⟩⟩
    cases hspelled with
    | integral hne hwhole hmark =>
      exact hmem hsign (mem_mantissaPattern.mpr (Or.inl ⟨hne, hwhole⟩)) hmark
    | @fractional whole fraction mark _ hne hwhole hfraction hmark =>
      have hmantissa :=
        mem_mantissaPattern.mpr (Or.inr ⟨whole, fraction, rfl, hne, hwhole, hfraction⟩)
      simpa using hmem hsign hmantissa hmark

/-- A numeral is a mantissa of digits and points, and an exponent or nothing. -/
theorem exists_mantissa {spelled : List Char} {n : Numeral} (h : SpellsNumeral spelled n) :
    ∃ mantissa mark e, spelled = mantissa ++ mark ∧ SpellsExponent mark e ∧ mantissa ≠ [] ∧
      ∀ c ∈ mantissa, isDigit c = true ∨ c = '.' := by
  cases h with
  | integral hne hwhole hmark =>
    exact ⟨_, _, _, rfl, hmark, hne, fun c hc => Or.inl (hwhole c hc)⟩
  | @fractional whole fraction mark _ _ hwhole hfraction hmark =>
    refine ⟨whole ++ '.' :: fraction, mark, _, by simp, hmark, by simp, fun c hc => ?_⟩
    rcases List.mem_append.mp hc with hc | hc
    · exact Or.inl (hwhole c hc)
    · rcases List.mem_cons.mp hc with rfl | hc
      · exact Or.inr rfl
      · exact Or.inl (hfraction c hc)

theorem ne_hyphen_of_mantissa {c : Char} (h : isDigit c = true ∨ c = '.') : c ≠ '-' := by
  rcases h with h | rfl
  · exact ne_of_isDigit h (by decide)
  · decide

/-- The spelling of a weight, a hyphen after blanks, and a text spell a weighted item. -/
theorem SpellsWeight.append_hyphen {s gap : List Char} {n : Numeral} (h : SpellsWeight s n)
    (hgap : ∀ c ∈ gap, isBlank c = true) (rest : List Char) :
    SpellsWeighted (s ++ (gap ++ '-' :: rest)) n rest := by
  cases h with
  | intro hsign hspelled =>
    rw [List.append_assoc]
    exact .intro hsign hspelled hgap

/-- The spelling of a weight reads as its numeral. -/
theorem SpellsWeight.read?_eq {s : List Char} {n : Numeral} (h : SpellsWeight s n) :
    read? s = some n.toFloat := by
  cases h with
  | @intro sign spelled _ hsign hspelled =>
  have htake : takeNumeral? spelled = some (n, []) := by
    have hend : EndsNumeral [] := fun _ hc => by cases hc
    simpa using takeNumeral?_of_spelling hspelled hend
  have hunsigned : takeSign (sign ++ spelled) = (false, spelled) := by
    rcases hsign with rfl | rfl
    · obtain ⟨mantissa, mark, e, rfl, -, hne, hchars⟩ := exists_mantissa hspelled
      obtain ⟨c, rest, rfl⟩ := List.exists_cons_of_ne_nil hne
      have hc := hchars c List.mem_cons_self
      obtain ⟨c', rest', hspelling, hplus⟩ := head_of_spells hspelled
      obtain rfl : c = c' := (List.cons.inj hspelling).1
      exact takeSign_of_ne (ne_hyphen_of_mantissa hc) hplus _
    · rfl
  rw [read?, hunsigned]
  simp [htake]

/-! ### Matches -/

/-- A match of the pattern of a weighted item: a weight, a hyphen that may have blanks around it,
and a name that holds no line feed. The item is a part of a line, and the name reaches up to its
end. -/
structure WeightedMatch (item : List Char) where
  weight : List Char
  gap : List Char
  margin : List Char
  name : List Char
  weight_mem : weight ∈ weightPattern
  gap_mem : gap ∈ (oneOf isBlank)∗
  margin_mem : margin ∈ (oneOf isBlank)∗
  name_mem : name ∈ (oneOf (· ≠ '\n'))∗
  spells : item = weight ++ (gap ++ '-' :: (margin ++ name))

variable {item name : List Char}

/-- **The item is split** exactly as the pattern matches it: the weight is the number that the
weight of the match spells, and the name is trimmed. -/
theorem splitWeighted?_iff_match (hitem : '\n' ∉ item) {w : Float} :
    (∃ n, splitWeighted? item = some (n, name) ∧ n.toFloat = w) ↔
      ∃ m : WeightedMatch item, read? m.weight = some w ∧ trim m.name = name := by
  constructor
  · rintro ⟨n, hsplit, rfl⟩
    obtain ⟨rest, ⟨hsign, hspelled, hgap⟩, rfl⟩ := splitWeighted?_eq_some_iff.mp hsplit
    have hweight := SpellsWeight.intro hsign hspelled
    refine ⟨⟨_, _, [], rest, mem_weightPattern.mpr ⟨n, hweight⟩, mem_kstar_oneOf.mpr hgap,
      Language.nil_mem_kstar _, mem_kstar_oneOf.mpr ?_, by simp⟩, hweight.read?_eq, rfl⟩
    intro c hc
    have hmem : c ≠ '\n' := by
      rintro rfl
      exact hitem (by simp [hc])
    simpa using hmem
  · rintro ⟨m, hread, rfl⟩
    obtain ⟨n, hweight⟩ := mem_weightPattern.mp m.weight_mem
    have hvalue : n.toFloat = w := Option.some.inj (hweight.read?_eq.symm.trans hread)
    have hspells : SpellsWeighted item n (m.margin ++ m.name) := by
      have h := hweight.append_hyphen (mem_kstar_oneOf.mp m.gap_mem) (m.margin ++ m.name)
      rwa [← m.spells] at h
    have hname := trim_blanks_append (mem_kstar_oneOf.mp m.margin_mem) m.name
    exact ⟨n, splitWeighted?_eq_some_iff.mpr ⟨_, hspells, hname.symm⟩, hvalue⟩

/-! ### The hyphen that separates -/

/-- The hyphen between two texts is the sign of an exponent: a mark stands before it, a digit or a
point before the mark, and a digit after it. -/
def IsExponentSign (before after : List Char) : Prop :=
  (∃ front c mark, before = front ++ [c, mark] ∧ (isDigit c = true ∨ c = '.') ∧
      (mark = 'e' ∨ mark = 'E')) ∧
    ∃ d rest, after = d :: rest ∧ isDigit d = true

/-- The hyphen between two texts is the first one of the whole text that is no part of an
exponent. -/
structure IsSeparator (before after : List Char) : Prop where
  noSign : ¬ IsExponentSign before after
  first : ∀ front rest, front ++ '-' :: rest = before ++ '-' :: after →
    front.length < before.length → IsExponentSign front rest

/-- A text has at most one separator. -/
theorem IsSeparator.unique {before after before' after' : List Char} (h : IsSeparator before after)
    (h' : IsSeparator before' after') (heq : before ++ '-' :: after = before' ++ '-' :: after') :
    before = before' ∧ after = after' := by
  rcases lt_trichotomy before.length before'.length with hlt | hlen | hlt
  · exact absurd (h'.first _ _ heq hlt) h.noSign
  · obtain ⟨rfl, hafter⟩ := List.append_inj heq hlen
    exact ⟨rfl, (List.cons.inj hafter).2⟩
  · exact absurd (h.first _ _ heq.symm hlt) h'.noSign

/-- A hyphen in a weight is the sign of its exponent. -/
theorem SpellsWeight.isExponentSign {n : Numeral} {before after rest : List Char}
    (h : SpellsWeight (before ++ '-' :: after) n) : IsExponentSign before (after ++ rest) := by
  generalize hs : before ++ '-' :: after = s at h
  cases h with
  | @intro sign spelled _ hsign hspelled =>
  obtain ⟨mantissa, mark, e, rfl, hmark, hne, hchars⟩ := exists_mantissa hspelled
  have hfront : '-' ∉ sign ++ mantissa := by
    intro hmem
    rcases List.mem_append.mp hmem with hmem | hmem
    · rcases hsign with rfl | rfl <;> simp at hmem
    · exact ne_hyphen_of_mantissa (hchars _ hmem) rfl
  have hdigits : ∀ {digits : List Char}, Digits digits → '-' ∉ digits := fun hdigits hmem =>
    ne_hyphen_of_mantissa (Or.inl (hdigits _ hmem)) rfl
  have hmarks : ∀ {c : Char}, c = 'e' ∨ c = 'E' → '-' ≠ c := by
    rintro c (rfl | rfl) <;> decide
  have hmem : '-' ∈ sign ++ (mantissa ++ mark) := hs ▸ by simp
  rw [← List.append_assoc, List.mem_append] at hmem
  cases hmark with
  | missing => simp [hfront] at hmem
  | positive hm hplus _ hd =>
    rcases hplus with rfl | rfl <;> simp [hfront, hdigits hd, hmarks hm] at hmem
  | @negative c digits hm hne' hd =>
    obtain ⟨front, last, rfl⟩ := (List.eq_nil_or_concat' mantissa).resolve_left hne
    have hbefore : '-' ∉ sign ++ (front ++ [last]) ++ [c] := by
      simpa [hmarks hm] using hfront
    have hcut : sign ++ (front ++ [last]) ++ [c] ++ '-' :: digits = before ++ '-' :: after := by
      rw [hs]
      simp
    obtain ⟨rfl, -, rfl⟩ := (List.append_cons_inj_of_notMem hbefore (hdigits hd)).mp hcut
    obtain ⟨d, tail, rfl⟩ := List.exists_cons_of_ne_nil hne'
    exact ⟨⟨sign ++ front, last, c, by simp, hchars last (by simp), hm⟩,
      d, tail ++ rest, rfl, hd d List.mem_cons_self⟩

/-- A weight ends in a digit or a point. -/
theorem SpellsWeight.last {s : List Char} {n : Numeral} (h : SpellsWeight s n) {c : Char}
    (hc : s.getLast? = some c) : isDigit c = true ∨ c = '.' := by
  cases h with
  | @intro sign spelled _ hsign hspelled =>
  obtain ⟨mantissa, mark, e, rfl, hmark, hne, hchars⟩ := exists_mantissa hspelled
  have hends : ∀ (body : List Char) {tail : List Char}, tail ≠ [] →
      (body ++ tail).getLast? = some c → c ∈ tail := by
    intro body tail htail hlast
    rw [List.getLast?_append_of_ne_nil body htail] at hlast
    exact List.mem_of_getLast? hlast
  cases hmark with
  | missing =>
    rw [List.append_nil] at hc
    exact hchars c (hends sign hne hc)
  | @positive mark sign' digits _ _ hne' hd =>
    refine Or.inl (hd c (hends (sign ++ (mantissa ++ mark :: sign')) hne' ?_))
    simpa using hc
  | @negative mark digits _ hne' hd =>
    refine Or.inl (hd c (hends (sign ++ (mantissa ++ [mark, '-'])) hne' ?_))
    simpa using hc

/-- A weight holds no blanks. -/
theorem SpellsWeight.not_blank {s : List Char} {n : Numeral} (h : SpellsWeight s n) :
    ∀ c ∈ s, isBlank c = false := by
  cases h with
  | @intro sign spelled _ hsign hspelled =>
  intro c hc
  rcases List.mem_append.mp hc with hc | hc
  · rcases hsign with rfl | rfl
    · cases hc
    · obtain rfl := List.mem_singleton.mp hc
      decide
  · exact not_blank_of_isNumeralChar (isNumeralChar_of_spells hspelled c hc)

/-- A place in the front part of a text cuts that part. -/
theorem exists_cut {front rest s t : List Char} {c : Char} (h : front ++ c :: rest = s ++ t)
    (hlt : front.length < s.length) : ∃ tail, s = front ++ c :: tail ∧ rest = tail ++ t := by
  rcases List.append_eq_append_iff.mp h with ⟨tail, rfl, htail⟩ | ⟨tail, rfl, -⟩
  · cases tail with
    | nil => simp at hlt
    | cons d tail =>
      obtain ⟨rfl, rfl⟩ := List.cons.inj htail
      exact ⟨tail, rfl, rfl⟩
  · rw [List.length_append] at hlt
    omega

namespace WeightedMatch

/-- The hyphen of a match stands after a weight or a blank, not after the mark of an exponent. -/
theorem not_isExponentSign (m : WeightedMatch item) :
    ¬ IsExponentSign (m.weight ++ m.gap) (m.margin ++ m.name) := by
  obtain ⟨n, hweight⟩ := mem_weightPattern.mp m.weight_mem
  rintro ⟨⟨front, c, mark, hfront, -, hmark⟩, -⟩
  have hlast : (m.weight ++ m.gap).getLast? = some mark := by
    rw [hfront]
    simp
  have hmarks : isBlank mark = false ∧ isDigit mark = false ∧ mark ≠ '.' := by
    rcases hmark with rfl | rfl <;> decide
  cases hg : m.gap.getLast? with
  | some b =>
    rw [List.getLast?_append, hg, Option.some_or, Option.some.injEq] at hlast
    have hblank := mem_kstar_oneOf.mp m.gap_mem b (List.mem_of_getLast? hg)
    rw [hlast, hmarks.1] at hblank
    cases hblank
  | none =>
    rw [List.getLast?_append, hg, Option.none_or] at hlast
    rcases hweight.last hlast with hdigit | hpoint
    · rw [hmarks.2.1] at hdigit
      cases hdigit
    · exact hmarks.2.2 hpoint

/-- A hyphen before that of a match stands in the weight, as the sign of its exponent. -/
theorem isExponentSign_of_lt (m : WeightedMatch item) {front rest : List Char}
    (h : front ++ '-' :: rest = m.weight ++ m.gap ++ '-' :: (m.margin ++ m.name))
    (hlt : front.length < (m.weight ++ m.gap).length) : IsExponentSign front rest := by
  obtain ⟨n, hweight⟩ := mem_weightPattern.mp m.weight_mem
  obtain ⟨tail, hcut, rfl⟩ := exists_cut h hlt
  -- the hyphen cannot stand among the blanks after the weight
  have hfront : front.length < m.weight.length := by
    by_contra hle
    have hprefix : m.weight <+: front :=
      List.prefix_of_prefix_length_le (List.prefix_append _ m.gap)
        (hcut ▸ List.prefix_append _ _) (not_lt.mp hle)
    obtain ⟨blanks, rfl⟩ := hprefix
    rw [List.append_assoc, List.append_cancel_left_eq] at hcut
    have hblank := mem_kstar_oneOf.mp m.gap_mem '-' (by simp [hcut])
    exact absurd hblank (by decide)
  obtain ⟨digits, hdigits, rfl⟩ := exists_cut hcut.symm hfront
  rw [List.append_assoc]
  rw [hdigits] at hweight
  exact hweight.isExponentSign

/-- **A match splits the item at its separator.** -/
theorem isSeparator (m : WeightedMatch item) :
    IsSeparator (m.weight ++ m.gap) (m.margin ++ m.name) :=
  ⟨m.not_isExponentSign, fun _ _ => m.isExponentSign_of_lt⟩

/-- The weight of a match ends at the first blank before its separator. -/
theorem takeWhile_weight (m : WeightedMatch item) :
    (m.weight ++ m.gap).takeWhile (fun c => !isBlank c) = m.weight := by
  obtain ⟨n, hweight⟩ := mem_weightPattern.mp m.weight_mem
  have hgap := mem_kstar_oneOf.mp m.gap_mem
  rw [List.takeWhile_append_of_pos fun c hc => by simp [hweight.not_blank c hc]]
  cases hg : m.gap with
  | nil => simp
  | cons b blanks => simp [hgap b (by simp [hg])]

/-- **All matches of an item** have the same weight, the same hyphen, and up to blanks the same
name. -/
theorem unique (m m' : WeightedMatch item) : m.weight = m'.weight ∧ m.gap = m'.gap ∧
    m.margin ++ m.name = m'.margin ++ m'.name := by
  have hsame : m.weight ++ m.gap ++ '-' :: (m.margin ++ m.name) =
      m'.weight ++ m'.gap ++ '-' :: (m'.margin ++ m'.name) := by
    rw [List.append_assoc, ← m.spells, List.append_assoc, ← m'.spells]
  obtain ⟨hbefore, hafter⟩ := m.isSeparator.unique m'.isSeparator hsame
  have hweight : m.weight = m'.weight := by
    rw [← m.takeWhile_weight, hbefore, m'.takeWhile_weight]
  rw [hweight, List.append_cancel_left_eq] at hbefore
  exact ⟨hweight, hbefore, hafter⟩

end WeightedMatch

/-! ### Written items -/

/-- The text of an item with a weight: the weight as it is written, a hyphen and the name. -/
def weightedText (w : Float) (name : List Char) : List Char :=
  (writeCompact w).toList ++ '-' :: name

variable {w : Float}

/-- What is written for a weight is the spelling of one. -/
theorem exists_spelling_of_weight (hw : isWeight w = true) :
    ∃ n, SpellsWeight (writeCompact w).toList n := by
  obtain ⟨n, hn, -⟩ := takeNumeral?_writeCompact hw (readsBack_of_isWeight hw)
  have hspelled : SpellsWeight ([] ++ (writeCompact w).toList) n :=
    .intro (Or.inl rfl) (spells_of_takeNumeral? hn)
  exact ⟨n, hspelled⟩

section Written

variable (hw : isWeight w = true) (htrim : trim name = name) (hline : '\n' ∉ name)

/-- The match of a written item at the hyphen that was written. -/
def writtenMatch : WeightedMatch (weightedText w name) where
  weight := (writeCompact w).toList
  gap := []
  margin := []
  name := name
  weight_mem := mem_weightPattern.mpr (exists_spelling_of_weight hw)
  gap_mem := Language.nil_mem_kstar _
  margin_mem := Language.nil_mem_kstar _
  name_mem := mem_kstar_oneOf.mpr fun _ hc => decide_eq_true (ne_of_mem_of_not_mem hc hline)
  spells := rfl

include hw htrim

/-- A written item is read as the name and the weight that it was written for. -/
theorem readItem_weightedText (hne : name ≠ []) (position : ℕ) :
    readItem position (weightedText w name) = .ok (.ofLexeme (String.ofList name), w) := by
  obtain ⟨n, hsplit, rfl⟩ := splitWeighted?_writeCompact hw (readsBack_of_isWeight hw) name
  rw [htrim] at hsplit
  exact readItem_of_weight (by simp) hsplit hne hw position

include hline

/-- **A written item** is matched in one way only: its weight is the text of the weight, and its
name is the name, with no blanks around the hyphen. -/
theorem parts_of_weightedText (m : WeightedMatch (weightedText w name)) :
    m.weight = (writeCompact w).toList ∧ m.gap = [] ∧ m.margin = [] ∧ m.name = name := by
  obtain ⟨hweight, hgap, hrest⟩ := m.unique (writtenMatch hw hline)
  have hrest : m.margin ++ m.name = name := hrest
  -- the name starts with no blank, so no blank stands before it
  cases hm : m.margin with
  | nil => exact ⟨hweight, hgap, rfl, by rwa [hm, List.nil_append] at hrest⟩
  | cons b blanks =>
    rw [hm, List.cons_append] at hrest
    have hsolid := (trim_eq_self_iff.mp htrim).1 b (by rw [← hrest]; rfl)
    have hblank := mem_kstar_oneOf.mp m.margin_mem b (by simp [hm])
    rw [hsolid] at hblank
    cases hblank

end Written

/-- **Weighted items split back.** What is written for a weight and a name matches the pattern in
one way only, with the text of the weight, which reads as the weight, and with the name; and it is
read as that name with that weight. Any item that matches at all does so in one way: its weight is
followed by the first hyphen that is no part of an exponent, and matches differ in no more than the
blanks before the name. The items that are split are those that match. -/
theorem weighted_items_split :
    (∀ (w : Float) (name : List Char), isWeight w = true → name ≠ [] → trim name = name →
      '\n' ∉ name →
        Nonempty (WeightedMatch (weightedText w name)) ∧
          (∀ m : WeightedMatch (weightedText w name), m.weight = (writeCompact w).toList ∧
            m.gap = [] ∧ m.margin = [] ∧ m.name = name) ∧
          read? (writeCompact w).toList = some w ∧
          ∀ position, readItem position (weightedText w name) =
            .ok (.ofLexeme (String.ofList name), w)) ∧
    (∀ (item : List Char) (m : WeightedMatch item),
      IsSeparator (m.weight ++ m.gap) (m.margin ++ m.name) ∧
        ∀ m' : WeightedMatch item, m'.weight = m.weight ∧ m'.gap = m.gap ∧
          m'.margin ++ m'.name = m.margin ++ m.name) ∧
    ∀ (item : List Char) (w : Float) (name : List Char), '\n' ∉ item →
      ((∃ n, splitWeighted? item = some (n, name) ∧ n.toFloat = w) ↔
        ∃ m : WeightedMatch item, read? m.weight = some w ∧ trim m.name = name) := by
  refine ⟨fun w name hw hne htrim hline => ?_, fun item m => ?_, fun item w name hitem => ?_⟩
  · exact ⟨⟨writtenMatch hw hline⟩, parts_of_weightedText hw htrim hline,
      readsBack_of_isWeight hw, readItem_weightedText hw htrim hne⟩
  · exact ⟨m.isSeparator, fun m' => m'.unique m⟩
  · exact splitWeighted?_iff_match hitem

/-- A weight with an exponent, before a name that starts with a hyphen and goes on like another
weight. -/
theorem weighted_items_split_exponents :
    isWeight 1e-5 = true ∧ trim "-2e-3-x".toList = "-2e-3-x".toList ∧
      weightedText 1e-5 "-2e-3-x".toList = "1e-05--2e-3-x".toList ∧
      readItem 1 "1e-05--2e-3-x".toList = .ok (.ofLexeme "-2e-3-x", 1e-5) ∧
      IsSeparator "1e-05".toList "-2e-3-x".toList ∧
      ∃ n, splitWeighted? "1e-05--2e-3-x".toList = some (n, "-2e-3-x".toList) ∧
        n.toFloat = 1e-5 := by
  have hw : isWeight 1e-5 = true := by decide +kernel
  have htrim : trim "-2e-3-x".toList = "-2e-3-x".toList := by decide +kernel
  have htext : weightedText 1e-5 "-2e-3-x".toList = "1e-05--2e-3-x".toList := by decide +kernel
  have hline : '\n' ∉ weightedText 1e-5 "-2e-3-x".toList := by decide +kernel
  obtain ⟨⟨m⟩, hparts, hread, hitem⟩ :=
    weighted_items_split.1 1e-5 "-2e-3-x".toList hw (by decide) htrim (by decide)
  obtain ⟨hweight, hgap, hmargin, hname⟩ := hparts m
  have hsplit := (weighted_items_split.2.2 _ 1e-5 "-2e-3-x".toList hline).mpr
    ⟨m, hweight ▸ hread, by rw [hname, htrim]⟩
  have hseparator := (weighted_items_split.2.1 _ m).1
  have hwritten : (writeCompact 1e-5).toList = "1e-05".toList := by decide +kernel
  rw [hweight, hgap, hmargin, hname, hwritten, List.append_nil, List.nil_append] at hseparator
  rw [htext] at hsplit
  refine ⟨hw, htrim, htext, ?_, hseparator, hsplit⟩
  rw [← htext]
  simpa using hitem 1

end FiniteAutomata.Listing
