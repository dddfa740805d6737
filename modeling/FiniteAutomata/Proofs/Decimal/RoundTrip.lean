import FiniteAutomata.Proofs.Decimal.Nearest
import FiniteAutomata.Proofs.Decimal.Shortest
import FiniteAutomata.Proofs.Decimal.Weights

/-! # Every weight reads back

What is written for a decimal is a numeral with the value of that decimal, wherever the point is set
(`takeNumeral?_write`). The decimal that is written for a weight, its shortest one or its integral
value, lies in the rounding interval of the weight. So what is read back is the number nearest to
it, which is the weight itself (`readsBack_of_isWeight`). -/

namespace FiniteAutomata.Decimal

open Text

variable {w : Float} {s whole fraction : List Char} {e : Int}

/-! ### Digits -/

/-- A text of digits from `0` to `9`. -/
def IsDigits (s : List Char) : Prop := ∀ c ∈ s, c.isDigit = true

theorem isDigits_toDigits (n : Nat) : IsDigits (Nat.toDigits 10 n) :=
  fun _ h => Nat.isDigit_of_mem_toDigits (by norm_num) (by norm_num) h

theorem isDigits_replicate (n : Nat) : IsDigits (List.replicate n '0') := by
  intro c h
  rw [List.eq_of_mem_replicate h]
  rfl

theorem IsDigits.append (h : IsDigits s) {t : List Char} (ht : IsDigits t) : IsDigits (s ++ t) :=
  fun c hc => (List.mem_append.mp hc).elim (h c) (ht c)

theorem digitValue?_of_isDigit {c : Char} (h : c.isDigit = true) :
    digitValue? c = some (c.toNat - '0'.toNat) := by
  have hrange : 0x30 ≤ c.toNat ∧ c.toNat < 0x30 + 10 := by
    simp only [Char.isDigit, Bool.and_eq_true, decide_eq_true_eq] at h
    have h1 := UInt32.le_iff_toNat_le.mp h.1
    have h2 := UInt32.le_iff_toNat_le.mp h.2
    exact ⟨h1, Nat.lt_succ_of_le h2⟩
  rw [digitValue?, zeroCodePoints, List.find?_cons_of_pos]
  · rfl
  · simpa using hrange

theorem isDigit_of_isDigits (h : IsDigits s) : ∀ c ∈ s, isDigit c = true := by
  intro c hc
  rw [isDigit, digitValue?_of_isDigit (h c hc)]
  rfl

theorem digitsValue_of_isDigits (h : IsDigits s) : digitsValue s = Nat.ofDigitChars 10 s 0 := by
  have hfold : ∀ n, s.foldl (fun n c => 10 * n + (digitValue? c).getD 0) n =
      Nat.ofDigitChars 10 s n := by
    induction s with
    | nil => exact fun _ => rfl
    | cons c s ih =>
      intro n
      rw [List.foldl_cons, Nat.ofDigitChars_cons, digitValue?_of_isDigit (h c List.mem_cons_self)]
      exact ih (fun d hd => h d (List.mem_cons_of_mem c hd)) _
  exact hfold 0

/-- Digits are taken up to the first character that is none. -/
theorem span_isDigits (h : IsDigits s) {rest : List Char}
    (hrest : ∀ c ∈ rest.head?, isDigit c = false) :
    (s ++ rest).takeWhile isDigit = s ∧ (s ++ rest).dropWhile isDigit = rest := by
  have hs := isDigit_of_isDigits h
  rw [List.takeWhile_append_of_pos hs, List.dropWhile_append_of_pos hs]
  cases rest with
  | nil => simp
  | cons c rest => simp [hrest c rfl]

/-! ### Numerals -/

/-- The value of a numeral. -/
def Numeral.value (n : Numeral) : ℚ :=
  digitsValue (n.whole ++ n.fraction) * 10 ^ (n.exponent - n.fraction.length)

theorem takeExponent_writeExponent (e : Int) : takeExponent (writeExponent e) = (e, []) := by
  have hdigits : IsDigits (List.replicate (2 - (Nat.toDigits 10 e.natAbs).length) '0' ++
      Nat.toDigits 10 e.natAbs) := (isDigits_replicate _).append (isDigits_toDigits _)
  obtain ⟨body, hbody⟩ : ∃ body, List.replicate (2 - (Nat.toDigits 10 e.natAbs).length) '0' ++
      Nat.toDigits 10 e.natAbs = body := ⟨_, rfl⟩
  have hvalue : digitsValue body = e.natAbs := by
    rw [← hbody, digitsValue_of_isDigits hdigits, Nat.ofDigitChars_append,
      Nat.ofDigitChars_replicate_zero, mul_zero, Nat.ofDigitChars_ten_toDigits]
  have hne : body ≠ [] := by
    rw [← hbody]
    exact List.append_ne_nil_of_right_ne_nil _ Nat.toDigits_ne_nil
  rw [hbody] at hdigits
  have hspan := span_isDigits hdigits (show ∀ c ∈ ([] : List Char).head?, _ by simp)
  rw [List.append_nil] at hspan
  have hwritten : writeExponent e = 'e' :: (if e < 0 then '-' else '+') :: body := by
    rw [← hbody, writeExponent]
    rfl
  have hsign : takeSign ((if e < 0 then '-' else '+') :: body) = (decide (e < 0), body) := by
    split_ifs with h <;> simp [takeSign, h]
  rw [hwritten, takeExponent_mark (Or.inl rfl), hsign, exponentValue]
  simp only [hspan.1, hspan.2, hvalue, List.isEmpty_iff, hne, if_false, Int.ofNat_eq_natCast,
    decide_eq_true_eq, Prod.mk.injEq, and_true]
  split_ifs <;> omega

theorem takeNumeral?_digits (hw : IsDigits whole) (hne : whole ≠ []) {rest : List Char}
    (hrest : ∀ c ∈ rest.head?, isDigit c = false ∧ c ≠ '.') :
    takeNumeral? (whole ++ rest) =
      some (⟨whole, [], (takeExponent rest).1⟩, (takeExponent rest).2) := by
  obtain ⟨htake, hdrop⟩ := span_isDigits hw fun c hc => (hrest c hc).1
  rw [takeNumeral?_of_no_point, htake, hdrop, if_neg (by simpa using hne)]
  intro body hbody
  rw [hdrop] at hbody
  exact (hrest '.' (by rw [hbody]; rfl)).2 rfl

theorem takeNumeral?_point (hw : IsDigits whole) (hne : whole ≠ []) (hf : IsDigits fraction)
    {rest : List Char} (hrest : ∀ c ∈ rest.head?, isDigit c = false) :
    takeNumeral? (whole ++ '.' :: (fraction ++ rest)) =
      some (⟨whole, fraction, (takeExponent rest).1⟩, (takeExponent rest).2) := by
  have hpoint : ∀ c ∈ ('.' :: (fraction ++ rest)).head?, isDigit c = false := by
    rintro c ⟨⟩
    decide
  obtain ⟨htake, hdrop⟩ := span_isDigits hw hpoint
  obtain ⟨hftake, hfdrop⟩ := span_isDigits hf hrest
  rw [takeNumeral?_of_point hdrop, htake, hftake, hfdrop, if_neg (by simp [hne])]

/-! ### Written decimals -/

theorem IsDigits.take (h : IsDigits s) (n : Nat) : IsDigits (s.take n) :=
  fun c hc => h c (List.mem_of_mem_take hc)

theorem IsDigits.drop (h : IsDigits s) (n : Nat) : IsDigits (s.drop n) :=
  fun c hc => h c (List.mem_of_mem_drop hc)

/-- The value of digits with the point after `point` of them. -/
def valueAt (digits : List Char) (point : Int) : ℚ :=
  Nat.ofDigitChars 10 digits 0 * 10 ^ (point - digits.length)

theorem value_numeral (hw : IsDigits whole) (hf : IsDigits fraction) (e : Int) :
    Numeral.value ⟨whole, fraction, e⟩ =
      Nat.ofDigitChars 10 (whole ++ fraction) 0 * 10 ^ (e - fraction.length) := by
  rw [Numeral.value, digitsValue_of_isDigits (hw.append hf)]

theorem exists_numeral_fraction (hw : IsDigits whole) (hne : whole ≠ []) (hf : IsDigits fraction) :
    ∃ n, takeNumeral? (whole ++ '.' :: fraction) = some (n, []) ∧
      n.value = Nat.ofDigitChars 10 (whole ++ fraction) 0 * 10 ^ (0 - fraction.length : Int) := by
  have h := takeNumeral?_point hw hne hf (show ∀ c ∈ ([] : List Char).head?, _ by simp)
  rw [List.append_nil] at h
  exact ⟨_, h, value_numeral hw hf 0⟩

theorem takeNumeral?_writePositional (h : IsDigits s) (hne : s ≠ []) (point : Int) :
    ∃ n, takeNumeral? (writePositional s point) = some (n, []) ∧ n.value = valueAt s point := by
  have hzero : IsDigits ['0'] := isDigits_replicate 1
  unfold writePositional
  split_ifs with hpoint
  · -- zeros stand between the point and the digits
    obtain ⟨n, hn, hv⟩ := exists_numeral_fraction hzero (by simp)
      ((isDigits_replicate (-point).toNat).append h)
    refine ⟨n, hn, hv.trans ?_⟩
    rw [valueAt, Nat.ofDigitChars_append, Nat.ofDigitChars_append, Nat.ofDigitChars_replicate_zero,
      List.length_append, List.length_replicate]
    congr 2
    push_cast
    omega
  dsimp only
  obtain ⟨p, rfl⟩ : ∃ p : Nat, point = p := ⟨point.toNat, by omega⟩
  rw [Int.toNat_natCast]
  rcases le_or_gt s.length p with hlen | hlen
  · -- zeros stand between the digits and the point
    obtain ⟨k, rfl⟩ := Nat.exists_eq_add_of_le hlen
    rw [List.take_of_length_le hlen, List.drop_eq_nil_of_le hlen, Nat.add_sub_cancel_left]
    obtain ⟨n, hn, hv⟩ := exists_numeral_fraction (h.append (isDigits_replicate k))
      (by simp [hne]) hzero
    refine ⟨n, hn, hv.trans ?_⟩
    rw [valueAt, Nat.ofDigitChars_append, Nat.ofDigitChars_append, Nat.ofDigitChars_replicate_zero,
      Nat.ofDigitChars_cons, Nat.ofDigitChars_nil,
      show (s.length + k : Nat) - (s.length : Int) = (k : Nat) by push_cast; ring, zpow_natCast]
    push_cast
    norm_num
    ring
  · -- the point stands between the digits
    have hdrop : s.drop p ≠ [] := fun hnil => by
      have := List.drop_eq_nil_iff.mp hnil
      omega
    have htake : s.take p ≠ [] := fun hnil =>
      (List.take_eq_nil_iff.mp hnil).elim (fun h0 => by omega) hne
    rw [List.isEmpty_eq_false_iff.mpr hdrop, show p - s.length = 0 by omega, List.replicate_zero,
      List.append_nil]
    obtain ⟨n, hn, hv⟩ := exists_numeral_fraction (h.take p) htake (h.drop p)
    refine ⟨n, hn, hv.trans ?_⟩
    rw [valueAt, List.take_append_drop, List.length_drop]
    congr 2
    omega

theorem takeNumeral?_writeScientific (h : IsDigits s) (hne : s ≠ []) (point : Int) :
    ∃ n, takeNumeral? (writeScientific s point) = some (n, []) ∧ n.value = valueAt s point := by
  have hrest : ∀ c ∈ (writeExponent (point - 1)).head?, isDigit c = false ∧ c ≠ '.' := by
    rintro c ⟨⟩
    exact ⟨by decide, by decide⟩
  have htake : s.take 1 ≠ [] := by simpa using hne
  have hexponent := takeExponent_writeExponent (point - 1)
  unfold writeScientific
  split_ifs with hlen
  · have h1 := takeNumeral?_digits (h.take 1) htake hrest
    rw [hexponent] at h1
    rw [List.append_nil]
    refine ⟨_, h1, (value_numeral (h.take 1) (by simp [IsDigits]) _).trans ?_⟩
    have hpos : 0 < s.length := List.length_pos_of_ne_nil hne
    rw [List.take_of_length_le hlen, List.append_nil, valueAt, List.length_nil]
    congr 2
    push_cast
    omega
  · have h1 := takeNumeral?_point (h.take 1) htake (h.drop 1) fun c hc => (hrest c hc).1
    rw [hexponent] at h1
    rw [List.append_assoc, List.cons_append]
    refine ⟨_, h1, (value_numeral (h.take 1) (h.drop 1) _).trans ?_⟩
    rw [valueAt, List.take_append_drop, List.length_drop]
    congr 2
    omega

/-- **What is written for a decimal** is a numeral with its value. -/
theorem takeNumeral?_write (d : Scaled) :
    ∃ n, takeNumeral? d.write = some (n, []) ∧ n.value = d.value := by
  have h := isDigits_toDigits d.digits
  have hne : Nat.toDigits 10 d.digits ≠ [] := Nat.toDigits_ne_nil
  have hvalue : valueAt (Nat.toDigits 10 d.digits)
      ((Nat.toDigits 10 d.digits).length + d.exponent) = d.value := by
    rw [valueAt, Nat.ofDigitChars_ten_toDigits, add_sub_cancel_left, Scaled.value]
  rw [← hvalue, Scaled.write]
  split_ifs
  · exact takeNumeral?_writePositional h hne _
  · exact takeNumeral?_writeScientific h hne _

/-! ### Weights -/

theorem value_toNat? {x : Magnitude} {n : Nat} (h : x.toNat? = some n) : (n : ℚ) = x.value := by
  unfold Magnitude.toNat? at h
  dsimp only at h
  split_ifs at h with hzero
  rw [value_eq_div, ← Option.some.inj h, Nat.cast_div (Nat.dvd_of_mod_eq_zero hzero) (by simp)]

/-- What is written for a weight is a numeral in its rounding interval. -/
theorem covers_writeCompact (h : isWeight w = true) :
    ∃ n, takeNumeral? (writeCompact w).toList = some (n, []) ∧
      (Magnitude.ofFloat w).Covers n.value := by
  have hx := canonical_ofFloat h
  unfold writeCompact write
  simp only [isNaN_of_isWeight h, isInf_of_isWeight h, isNegative_of_isWeight h, Bool.or_self,
    Bool.false_eq_true, if_false, Bool.false_and, String.empty_append]
  split
  · next n hn =>
    have h1 := takeNumeral?_digits (isDigits_toDigits n) Nat.toDigits_ne_nil
      (show ∀ c ∈ ([] : List Char).head?, _ by simp)
    rw [List.append_nil] at h1
    rw [Nat.toString_eq_repr, Nat.toList_repr]
    refine ⟨_, h1, ?_⟩
    rw [value_numeral (isDigits_toDigits n) (by simp [IsDigits]), List.append_nil,
      Nat.ofDigitChars_ten_toDigits, List.length_nil]
    have hvalue : (n : ℚ) = (Magnitude.ofFloat w).value := value_toNat? hn
    simpa [takeExponent, hvalue] using (Magnitude.ofFloat w).covers_value
  · obtain ⟨n, hn, hv⟩ := takeNumeral?_write (Magnitude.ofFloat w).shortest
    rw [String.toList_ofList]
    exact ⟨n, hn, hv ▸ covers_shortest hx⟩

/-- **Every weight reads back** from what is written for it. -/
theorem readsBack_of_isWeight (h : isWeight w = true) : ReadsBack w := by
  obtain ⟨n, hn, hv⟩ := covers_writeCompact h
  obtain ⟨c, rest, hc, hd⟩ := startsWithDigit_writeCompact h
  have hsign : takeSign (writeCompact w).toList = (false, (writeCompact w).toList) := by
    rw [hc]
    exact takeSign_of_isDigit hd rest
  have hnearest : n.toFloat = w := nearest_eq_of_covers h hv
  rw [ReadsBack, read?, hsign]
  simp [hn, hnearest]

end FiniteAutomata.Decimal
