import FiniteAutomata.Decimal.Numeral
import FiniteAutomata.Proofs.Decimal.Bits
import FiniteAutomata.Proofs.Decimal.Spelling
import FiniteAutomata.Proofs.Text.Trim

/-! # Weights as text

What is written for a weight starts with a digit (`startsWithDigit_writeCompact`), so it is read
without a sign: a weight that reads back is written as a numeral (`takeNumeral?_writeCompact`). The
spelling of a numeral holds neither blanks nor commas (`isNumeralChar_of_spells`), and a hyphen
cannot go on with it (`endsNumeral_hyphen`). -/

namespace FiniteAutomata

namespace Text

theorem not_blank_of_isDigit {c : Char} (h : isDigit c = true) : isBlank c = false := by
  have hall : ∀ z ∈ zeroCodePoints, ∀ k < 10, isBlank (Char.ofNat (z + k)) = false := by
    decide +kernel
  rw [isDigit, digitValue?, Option.isSome_map, Option.isSome_iff_exists] at h
  obtain ⟨z, hz⟩ := h
  have hrange := List.find?_some hz
  simp only [Bool.and_eq_true, decide_eq_true_eq] at hrange
  have := hall z (List.mem_of_find?_eq_some hz) (c.toNat - z) (by omega)
  rwa [show z + (c.toNat - z) = c.toNat by omega, Char.ofNat_toNat] at this

end Text

namespace Decimal

open Text

/-! ### The characters of a numeral -/

/-- The characters that a numeral may hold. -/
def isNumeralChar (c : Char) : Bool := isDigit c || c ∈ ['.', 'e', 'E', '+', '-']

theorem not_blank_of_isNumeralChar {c : Char} (h : isNumeralChar c = true) : isBlank c = false := by
  rw [isNumeralChar, Bool.or_eq_true, decide_eq_true_eq] at h
  rcases h with h | h
  · exact not_blank_of_isDigit h
  · have hall : ['.', 'e', 'E', '+', '-'].all (!isBlank ·) = true := by decide
    simpa using List.all_eq_true.mp hall c h

theorem ne_comma_of_isNumeralChar {c : Char} (h : isNumeralChar c = true) : c ≠ ',' := by
  rintro rfl
  exact absurd h (by decide)

theorem isNumeralChar_of_isDigit {c : Char} (h : isDigit c = true) : isNumeralChar c = true := by
  simp [isNumeralChar, h]

/-- The spelling of an exponent holds only characters of numerals. -/
theorem isNumeralChar_of_spellsExponent {mark : List Char} {e : Int} (h : SpellsExponent mark e) :
    ∀ c ∈ mark, isNumeralChar c = true := by
  have hmarks : ∀ {c : Char}, c = 'e' ∨ c = 'E' → isNumeralChar c = true := by
    rintro c (rfl | rfl) <;> decide
  intro c hc
  cases h with
  | missing => cases hc
  | positive hmark hsign _ hdigits =>
    rcases List.mem_cons.mp hc with rfl | hc
    · exact hmarks hmark
    · rcases List.mem_append.mp hc with hc | hc
      · rcases hsign with rfl | rfl
        · cases hc
        · obtain rfl := List.mem_singleton.mp hc
          decide
      · exact isNumeralChar_of_isDigit (hdigits c hc)
  | negative hmark _ hdigits =>
    rcases List.mem_cons.mp hc with rfl | hc
    · exact hmarks hmark
    · rcases List.mem_cons.mp hc with rfl | hc
      · decide
      · exact isNumeralChar_of_isDigit (hdigits c hc)

/-- The spelling of a numeral holds only characters of numerals. -/
theorem isNumeralChar_of_spells {spelled : List Char} {n : Numeral} (h : SpellsNumeral spelled n) :
    ∀ c ∈ spelled, isNumeralChar c = true := by
  intro c hc
  cases h with
  | integral _ hwhole hmark =>
    rcases List.mem_append.mp hc with hc | hc
    · exact isNumeralChar_of_isDigit (hwhole c hc)
    · exact isNumeralChar_of_spellsExponent hmark c hc
  | fractional _ hwhole hfraction hmark =>
    rcases List.mem_append.mp hc with hc | hc
    · exact isNumeralChar_of_isDigit (hwhole c hc)
    rcases List.mem_cons.mp hc with rfl | hc
    · decide
    rcases List.mem_append.mp hc with hc | hc
    · exact isNumeralChar_of_isDigit (hfraction c hc)
    · exact isNumeralChar_of_spellsExponent hmark c hc

/-- A text that is a numeral as a whole is the spelling of it. -/
theorem spells_of_takeNumeral? {s : List Char} {n : Numeral} (h : takeNumeral? s = some (n, [])) :
    SpellsNumeral s n := by
  obtain ⟨spelled, hspelled, rfl⟩ := exists_spelling_of_takeNumeral? h
  rwa [List.append_nil]

/-- A hyphen cannot go on with a numeral. -/
theorem endsNumeral_hyphen (rest : List Char) : EndsNumeral ('-' :: rest) :=
  fun _ hc => Option.some.inj hc ▸ (by decide)

/-! ### Written weights -/

/-- A number that is read back from what is written for it. -/
def ReadsBack (w : Float) : Prop := read? (writeCompact w).toList = some w

/-- A text that starts with a digit. -/
def StartsWithDigit (s : List Char) : Prop := ∃ c rest, s = c :: rest ∧ c.isDigit = true

theorem startsWithDigit_toDigits (n : Nat) : StartsWithDigit (Nat.toDigits 10 n) := by
  obtain ⟨c, rest, h⟩ := List.exists_cons_of_ne_nil (Nat.toDigits_ne_nil (n := n) (b := 10))
  exact ⟨c, rest, h, Nat.isDigit_of_mem_toDigits (by decide) (by decide)
    (h ▸ List.mem_cons_self : c ∈ Nat.toDigits 10 n)⟩

theorem startsWithDigit_write (d : Scaled) : StartsWithDigit d.write := by
  obtain ⟨c, rest, h, hc⟩ := startsWithDigit_toDigits d.digits
  unfold Scaled.write
  simp only [h]
  split_ifs with hr
  · unfold writePositional
    split_ifs with hp
    · exact ⟨'0', _, rfl, by decide⟩
    · obtain ⟨k, hk⟩ : ∃ k, ((c :: rest).length + d.exponent : Int).toNat = k + 1 :=
        Nat.exists_eq_succ_of_ne_zero (by omega)
      rw [hk]
      exact ⟨c, _, rfl, hc⟩
  · exact ⟨c, _, rfl, hc⟩

/-- **What is written for a weight** starts with a digit. -/
theorem startsWithDigit_writeCompact {w : Float} (h : isWeight w = true) :
    StartsWithDigit (writeCompact w).toList := by
  have hsign := isNegative_of_isWeight h
  unfold writeCompact write
  simp only [isNaN_of_isWeight h, isInf_of_isWeight h, hsign, Bool.or_self, Bool.false_eq_true,
    if_false, Bool.false_and, String.empty_append]
  split
  · rw [Nat.toString_eq_repr, Nat.toList_repr]
    exact startsWithDigit_toDigits _
  · rw [String.toList_ofList]
    exact startsWithDigit_write _

/-- A text that starts with a digit has no sign. -/
theorem takeSign_of_isDigit {c : Char} (h : c.isDigit = true) (rest : List Char) :
    takeSign (c :: rest) = (false, c :: rest) := by
  refine takeSign_of_ne ?_ ?_ rest <;>
  · rintro rfl
    exact absurd h (by decide)

/-- **A weight that reads back** is written as a numeral with that value. -/
theorem takeNumeral?_writeCompact {w : Float} (h : isWeight w = true) (hr : ReadsBack w) :
    ∃ n, takeNumeral? (writeCompact w).toList = some (n, []) ∧ n.toFloat = w := by
  obtain ⟨c, rest, hc, hd⟩ := startsWithDigit_writeCompact h
  unfold ReadsBack read? at hr
  rw [hc, takeSign_of_isDigit hd] at hr
  simp only at hr
  split at hr
  · next n hn =>
    simp only [Bool.false_eq_true, if_false, Option.some.injEq] at hr
    exact ⟨n, by rw [hc, hn], hr⟩
  · simp at hr

/-- A weight that reads back is written without blanks and commas. -/
theorem chars_writeCompact {w : Float} (h : isWeight w = true) (hr : ReadsBack w) :
    ∀ c ∈ (writeCompact w).toList, isBlank c = false ∧ c ≠ ',' := by
  obtain ⟨n, hn, -⟩ := takeNumeral?_writeCompact h hr
  intro c hc
  have hchar := isNumeralChar_of_spells (spells_of_takeNumeral? hn) c hc
  exact ⟨not_blank_of_isNumeralChar hchar, ne_comma_of_isNumeralChar hchar⟩

end Decimal

end FiniteAutomata
