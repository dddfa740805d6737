import FiniteAutomata.Decimal.Numeral
import Mathlib.Data.List.TakeWhile
import Mathlib.Tactic.SplitIfs

/-! # How numerals are spelled

A numeral is spelled by digits with an optional point and more digits, or by a point and digits, and
an optional exponent with an optional sign (`SpellsNumeral`). What is taken off the front of a text
as a numeral is such a spelling (`exists_spelling_of_takeNumeral?`), and a spelling is taken as a
whole if what follows cannot go on with it (`takeNumeral?_of_spelling`). -/

namespace FiniteAutomata.Decimal

open Text

/-! ### Spellings -/

/-- A text of digits only. -/
def Digits (s : List Char) : Prop := ∀ c ∈ s, isDigit c = true

/-- The spellings of an exponent; the empty one is that of a missing exponent. -/
inductive SpellsExponent : List Char → Int → Prop where
  | missing : SpellsExponent [] 0
  | positive {mark : Char} {sign digits : List Char} (hmark : mark = 'e' ∨ mark = 'E')
      (hsign : sign = [] ∨ sign = ['+']) (hne : digits ≠ []) (hdigits : Digits digits) :
      SpellsExponent (mark :: (sign ++ digits)) (Int.ofNat (digitsValue digits))
  | negative {mark : Char} {digits : List Char} (hmark : mark = 'e' ∨ mark = 'E')
      (hne : digits ≠ []) (hdigits : Digits digits) :
      SpellsExponent (mark :: '-' :: digits) (-Int.ofNat (digitsValue digits))

/-- The spellings of a numeral. -/
inductive SpellsNumeral : List Char → Numeral → Prop where
  | integral {whole mark : List Char} {exponent : Int} (hne : whole ≠ []) (hwhole : Digits whole)
      (hmark : SpellsExponent mark exponent) :
      SpellsNumeral (whole ++ mark) ⟨whole, [], exponent⟩
  | fractional {whole fraction mark : List Char} {exponent : Int}
      (hne : whole ≠ [] ∨ fraction ≠ []) (hwhole : Digits whole) (hfraction : Digits fraction)
      (hmark : SpellsExponent mark exponent) :
      SpellsNumeral (whole ++ '.' :: (fraction ++ mark)) ⟨whole, fraction, exponent⟩

/-- A text that cannot go on with a numeral before it. -/
def EndsNumeral (rest : List Char) : Prop :=
  ∀ c, rest.head? = some c → isDigit c = false ∧ c ≠ '.' ∧ ¬ (c = 'e' ∨ c = 'E')

/-! ### Digits at the front -/

theorem digits_takeWhile (s : List Char) : Digits (s.takeWhile isDigit) :=
  List.all_eq_true.mp List.all_takeWhile

/-- Digits are taken as far as they go. -/
theorem digits_append {digits rest : List Char} (hdigits : Digits digits)
    (hrest : ∀ c, rest.head? = some c → isDigit c = false) :
    (digits ++ rest).takeWhile isDigit = digits ∧ (digits ++ rest).dropWhile isDigit = rest := by
  rw [List.takeWhile_append_of_pos hdigits, List.dropWhile_append_of_pos hdigits]
  cases rest with
  | nil => simp
  | cons c rest =>
    have hc : ¬ isDigit c = true := by simp [hrest c rfl]
    rw [List.takeWhile_cons_of_neg hc, List.dropWhile_cons_of_neg hc, List.append_nil]
    exact ⟨rfl, rfl⟩

theorem ne_of_isDigit {c d : Char} (hc : isDigit c = true) (hd : isDigit d = false) : c ≠ d := by
  rintro rfl
  rw [hc] at hd
  cases hd

/-! ### Exponents -/

/-- The value of the digits after the sign of an exponent. -/
def exponentValue (signed : Bool × List Char) : Int :=
  if signed.1 then -Int.ofNat (digitsValue (signed.2.takeWhile isDigit))
  else Int.ofNat (digitsValue (signed.2.takeWhile isDigit))

/-- A text that starts with the mark of an exponent: without digits after it there is none. -/
theorem takeExponent_mark {mark : Char} (hm : mark = 'e' ∨ mark = 'E') (rest : List Char) :
    takeExponent (mark :: rest) =
      if ((takeSign rest).2.takeWhile isDigit).isEmpty then (0, mark :: rest)
      else (exponentValue (takeSign rest), (takeSign rest).2.dropWhile isDigit) := by
  cases rest with
  | nil => rcases hm with rfl | rfl <;> rfl
  | cons c rest =>
    by_cases hminus : c = '-'
    · subst hminus
      rcases hm with rfl | rfl <;> rfl
    · by_cases hplus : c = '+'
      · subst hplus
        rcases hm with rfl | rfl <;> rfl
      · rcases hm with rfl | rfl <;> simp [takeExponent, takeSign, exponentValue, hminus, hplus]

theorem takeExponent_of_ne {c : Char} (h : ¬ (c = 'e' ∨ c = 'E')) (rest : List Char) :
    takeExponent (c :: rest) = (0, c :: rest) := by
  rw [not_or] at h
  unfold takeExponent
  split
  · next he => exact absurd (List.cons.inj he).1 h.1
  · next he => exact absurd (List.cons.inj he).1 h.2
  · rfl

theorem takeSign_of_ne {c : Char} (hminus : c ≠ '-') (hplus : c ≠ '+') (rest : List Char) :
    takeSign (c :: rest) = (false, c :: rest) := by
  unfold takeSign
  split
  · next he => exact absurd (List.cons.inj he).1 hminus
  · next he => exact absurd (List.cons.inj he).1 hplus
  · rfl

/-- A text has a minus at the front, or else a plus or no sign. -/
theorem takeSign_cases (s : List Char) : (∃ body, s = '-' :: body ∧ takeSign s = (true, body)) ∨
    ∃ sign body, (sign = [] ∨ sign = ['+']) ∧ s = sign ++ body ∧ takeSign s = (false, body) := by
  unfold takeSign
  split
  · next body => exact Or.inl ⟨body, rfl, rfl⟩
  · next body => exact Or.inr ⟨['+'], body, Or.inr rfl, rfl, rfl⟩
  · exact Or.inr ⟨[], s, Or.inl rfl, rfl, rfl⟩

/-- What is taken as an exponent is the spelling of one. -/
theorem exists_spelling_of_takeExponent (s : List Char) : ∃ mark,
    SpellsExponent mark (takeExponent s).1 ∧ s = mark ++ (takeExponent s).2 := by
  cases s with
  | nil => exact ⟨[], .missing, rfl⟩
  | cons mark body =>
    by_cases hm : mark = 'e' ∨ mark = 'E'
    · rw [takeExponent_mark hm]
      split_ifs with hdigits
      · exact ⟨[], .missing, rfl⟩
      · have hne : (takeSign body).2.takeWhile isDigit ≠ [] := fun h => hdigits (by simp [h])
        rcases takeSign_cases body with ⟨rest, rfl, hrest⟩ | ⟨sign, rest, hsign, rfl, hrest⟩
        · rw [hrest] at hne ⊢
          exact ⟨_, .negative hm hne (digits_takeWhile rest), by simp⟩
        · rw [hrest] at hne ⊢
          exact ⟨_, .positive hm hsign hne (digits_takeWhile rest), by simp⟩
    · rw [takeExponent_of_ne hm]
      exact ⟨[], .missing, rfl⟩

/-- The spelling of an exponent is taken as a whole. -/
theorem takeExponent_of_spelling {mark rest : List Char} {e : Int} (h : SpellsExponent mark e)
    (hrest : EndsNumeral rest) : takeExponent (mark ++ rest) = (e, rest) := by
  have hend : ∀ c, rest.head? = some c → isDigit c = false := fun c hc => (hrest c hc).1
  cases h with
  | missing =>
    cases rest with
    | nil => rfl
    | cons c rest => exact takeExponent_of_ne (hrest c rfl).2.2 rest
  | @positive mark sign digits hmark hsign hne hdigits =>
    obtain ⟨htake, hdrop⟩ := digits_append hdigits hend
    have hsigned : takeSign (sign ++ digits ++ rest) = (false, digits ++ rest) := by
      rcases hsign with rfl | rfl
      · obtain ⟨c, tail, rfl⟩ := List.exists_cons_of_ne_nil hne
        have hc : isDigit c = true := hdigits c List.mem_cons_self
        exact takeSign_of_ne (ne_of_isDigit hc (by decide)) (ne_of_isDigit hc (by decide)) _
      · rfl
    rw [List.cons_append, takeExponent_mark hmark, hsigned, exponentValue, htake, hdrop,
      if_neg (by simpa using hne)]
    rfl
  | @negative mark digits hmark hne hdigits =>
    obtain ⟨htake, hdrop⟩ := digits_append hdigits hend
    have hsigned : takeSign ('-' :: digits ++ rest) = (true, digits ++ rest) := rfl
    rw [List.cons_append, takeExponent_mark hmark, hsigned, exponentValue, htake, hdrop,
      if_neg (by simpa using hne)]
    rfl

/-- An exponent starts with neither a digit nor a point, and so does what follows a numeral. -/
theorem head_of_spelling {mark rest : List Char} {e : Int} (h : SpellsExponent mark e)
    (hrest : EndsNumeral rest) {c : Char} (hc : (mark ++ rest).head? = some c) :
    isDigit c = false ∧ c ≠ '.' := by
  have hmarks : ∀ {c : Char}, c = 'e' ∨ c = 'E' → isDigit c = false ∧ c ≠ '.' := by
    rintro c (rfl | rfl) <;> decide
  cases h with
  | missing => exact ⟨(hrest c hc).1, (hrest c hc).2.1⟩
  | positive hmark => exact Option.some.inj hc ▸ hmarks hmark
  | negative hmark => exact Option.some.inj hc ▸ hmarks hmark

/-! ### Numerals -/

/-- A numeral with a point is its digits before the point, those after it, and an exponent. -/
theorem takeNumeral?_of_point {s body : List Char} (h : s.dropWhile isDigit = '.' :: body) :
    takeNumeral? s =
      if (s.takeWhile isDigit).isEmpty && (body.takeWhile isDigit).isEmpty then none
      else some (⟨s.takeWhile isDigit, body.takeWhile isDigit,
        (takeExponent (body.dropWhile isDigit)).1⟩, (takeExponent (body.dropWhile isDigit)).2) := by
  unfold takeNumeral?
  simp only [h]

/-- A numeral without a point is its digits and an exponent. -/
theorem takeNumeral?_of_no_point {s : List Char} (h : ∀ body, s.dropWhile isDigit ≠ '.' :: body) :
    takeNumeral? s =
      if (s.takeWhile isDigit).isEmpty then none
      else some (⟨s.takeWhile isDigit, [], (takeExponent (s.dropWhile isDigit)).1⟩,
        (takeExponent (s.dropWhile isDigit)).2) := by
  unfold takeNumeral?
  simp only

/-- The spelling of a numeral starts with no sign. -/
theorem head_of_spells {spelled : List Char} {n : Numeral} (h : SpellsNumeral spelled n) :
    ∃ c rest, spelled = c :: rest ∧ c ≠ '+' := by
  cases h with
  | integral hne hwhole =>
    obtain ⟨c, rest, rfl⟩ := List.exists_cons_of_ne_nil hne
    exact ⟨c, _, rfl, ne_of_isDigit (hwhole c List.mem_cons_self) (by decide)⟩
  | @fractional whole _ _ _ _ hwhole =>
    cases whole with
    | nil => exact ⟨'.', _, rfl, by decide⟩
    | cons c rest => exact ⟨c, _, rfl, ne_of_isDigit (hwhole c List.mem_cons_self) (by decide)⟩

/-- **What is taken as a numeral** is the spelling of one. -/
theorem exists_spelling_of_takeNumeral? {s rest : List Char} {n : Numeral}
    (h : takeNumeral? s = some (n, rest)) : ∃ spelled, SpellsNumeral spelled n ∧ s = spelled ++ rest := by
  have hs := List.takeWhile_append_dropWhile (p := isDigit) (l := s)
  by_cases hp : ∃ body, s.dropWhile isDigit = '.' :: body
  · obtain ⟨body, hb⟩ := hp
    obtain ⟨mark, hmark, htail⟩ := exists_spelling_of_takeExponent (body.dropWhile isDigit)
    rw [takeNumeral?_of_point hb] at h
    split_ifs at h with hempty
    obtain ⟨rfl, rfl⟩ := Prod.mk.inj (Option.some.inj h)
    have hne : s.takeWhile isDigit ≠ [] ∨ body.takeWhile isDigit ≠ [] := by
      rw [Bool.and_eq_true, not_and_or] at hempty
      simpa using hempty
    refine ⟨_, .fractional hne (digits_takeWhile s) (digits_takeWhile body) hmark, ?_⟩
    rw [List.append_assoc, List.cons_append, List.append_assoc, ← htail,
      List.takeWhile_append_dropWhile, ← hb, hs]
  · obtain ⟨mark, hmark, htail⟩ := exists_spelling_of_takeExponent (s.dropWhile isDigit)
    rw [takeNumeral?_of_no_point (not_exists.mp hp)] at h
    split_ifs at h with hempty
    obtain ⟨rfl, rfl⟩ := Prod.mk.inj (Option.some.inj h)
    refine ⟨_, .integral (by simpa using hempty) (digits_takeWhile s) hmark, ?_⟩
    rw [List.append_assoc, ← htail, hs]

/-- **The spelling of a numeral** is taken as a whole. -/
theorem takeNumeral?_of_spelling {spelled rest : List Char} {n : Numeral}
    (h : SpellsNumeral spelled n) (hrest : EndsNumeral rest) :
    takeNumeral? (spelled ++ rest) = some (n, rest) := by
  cases h with
  | @integral whole mark exponent hne hwhole hmark =>
    obtain ⟨htake, hdrop⟩ := digits_append hwhole fun c hc => (head_of_spelling hmark hrest hc).1
    have hpoint : ∀ body, (whole ++ (mark ++ rest)).dropWhile isDigit ≠ '.' :: body := by
      intro body hb
      have hhead : (mark ++ rest).head? = some '.' := by
        rw [← hdrop, hb]
        rfl
      exact (head_of_spelling hmark hrest hhead).2 rfl
    rw [List.append_assoc, takeNumeral?_of_no_point hpoint, htake, hdrop,
      takeExponent_of_spelling hmark hrest, if_neg (by simpa using hne)]
  | @fractional whole fraction mark exponent hne hwhole hfraction hmark =>
    have hpoint : ∀ c, ('.' :: (fraction ++ (mark ++ rest))).head? = some c → isDigit c = false :=
      fun c hc => Option.some.inj hc ▸ (by decide : isDigit '.' = false)
    obtain ⟨htake, hdrop⟩ := digits_append hwhole hpoint
    obtain ⟨htake', hdrop'⟩ := digits_append hfraction
      fun c hc => (head_of_spelling hmark hrest hc).1
    rw [List.append_assoc, List.cons_append, List.append_assoc, takeNumeral?_of_point hdrop, htake,
      htake', hdrop', takeExponent_of_spelling hmark hrest, if_neg]
    rw [Bool.and_eq_true, not_and_or]
    simpa using hne

end FiniteAutomata.Decimal
