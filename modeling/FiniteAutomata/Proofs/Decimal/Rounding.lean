import FiniteAutomata.Proofs.Decimal.Bits

/-! # Rounding to the nearest number

The exact result of an operation reaches the rounding as a mantissa that was cut off at some place,
together with what is known of the rest (`Represents`). Shifting keeps that knowledge, and what is
rounded in the end is the natural number nearest to the exact value, of two the even one
(`RoundsTo`). A value in the rounding interval of a number (`Magnitude.Covers`) lies in its binade
or just below it, where the rounding carries into the next place; either way that number is the
result (`roundWithAccuracy_of_covers`). -/

namespace FiniteAutomata

open Float.Model Float.Model.UnpackedFloat

namespace Decimal

variable {x : Magnitude} {em : ExtendedMantissa} {v y : ℚ} {m n : Nat} {e : Int}

/-! ### Residual bits -/

/-- The value of which an extended mantissa keeps the whole part and two residual bits. -/
def Represents (em : ExtendedMantissa) (y : ℚ) : Prop :=
  match em.roundBit, em.stickyBit with
  | false, false => y = em.mantissa
  | false, true => (em.mantissa : ℚ) < y ∧ y < em.mantissa + 1 / 2
  | true, false => y = em.mantissa + 1 / 2
  | true, true => (em.mantissa : ℚ) + 1 / 2 < y ∧ y < em.mantissa + 1

theorem represents_exact (m : Nat) : Represents (.ofMantissaAndAccuracy m .exact) m := rfl

theorem Represents.mantissa_le (h : Represents em y) : (em.mantissa : ℚ) ≤ y := by
  obtain ⟨m, r, s⟩ := em
  cases r <;> cases s <;> simp only [Represents] at h ⊢ <;> linarith

theorem Represents.lt_mantissa_add_one (h : Represents em y) : y < em.mantissa + 1 := by
  obtain ⟨m, r, s⟩ := em
  cases r <;> cases s <;> simp only [Represents] at h ⊢ <;> linarith

/-- The mantissa loses its last bit to the residual ones. -/
theorem Represents.shiftRightOne (h : Represents em y) : Represents em.shiftRightOne (y / 2) := by
  obtain ⟨m, r, s⟩ := em
  have hm : ((m % 2 : Nat) : ℚ) + 2 * ((m / 2 : Nat) : ℚ) = m := by
    exact_mod_cast Nat.mod_add_div m 2
  rcases Nat.mod_two_eq_zero_or_one m with hbit | hbit <;> rw [hbit] at hm <;> push_cast at hm <;>
    cases r <;> cases s <;>
    simp only [Represents, ExtendedMantissa.shiftRightOne, hbit, bne_self_eq_false, Bool.or_self,
      Bool.or_true, Bool.or_false, show ((1 : Nat) != 0) = true from rfl] at h ⊢ <;>
    first | linarith | (constructor <;> linarith)

theorem Represents.shiftRight (h : Represents em y) (k : Nat) :
    Represents (em >>> k) (y / 2 ^ k) := by
  change Represents (k.repeat ExtendedMantissa.shiftRightOne em) _
  induction k with
  | zero => simpa [Nat.repeat] using h
  | succ k ih =>
    rw [Nat.repeat, pow_succ, ← div_div]
    exact ih.shiftRightOne

/-! ### The nearest natural number -/

/-- A natural number is nearest to a value, and of two such numbers the even one. -/
def RoundsTo (y : ℚ) (n : Nat) : Prop :=
  ((n : ℚ) - 1 / 2 < y ∧ y < n + 1 / 2) ∨ n % 2 = 0 ∧ (n : ℚ) - 1 / 2 ≤ y ∧ y ≤ n + 1 / 2

theorem RoundsTo.le_of_roundsTo (h : RoundsTo y m) (h' : RoundsTo y n) : n ≤ m := by
  by_contra hlt
  have hsucc : (m : ℚ) + 1 ≤ n := by exact_mod_cast not_le.mp hlt
  -- the value is halfway between two consecutive numbers, which are not both even
  rcases h with h | ⟨heven, h⟩
  · rcases h' with h' | ⟨-, h'⟩ <;> linarith
  · rcases h' with h' | ⟨heven', h'⟩
    · linarith
    · have hnext : (n : ℚ) = m + 1 := by linarith
      have : n = m + 1 := by exact_mod_cast hnext
      omega

theorem RoundsTo.unique (h : RoundsTo y m) (h' : RoundsTo y n) : m = n :=
  le_antisymm (h'.le_of_roundsTo h) (h.le_of_roundsTo h')

/-- **What is rounded from the residual bits** is the nearest natural number. -/
theorem Represents.roundsTo (h : Represents em y) : RoundsTo y em.roundedMantissa := by
  obtain ⟨m, r, s⟩ := em
  cases r <;> cases s <;>
    simp only [Represents, ExtendedMantissa.roundedMantissa, ExtendedMantissa.accuracy,
      Accuracy.roundToNearestEven] at h ⊢
  · exact Or.inl (by constructor <;> linarith)
  · exact Or.inl (by constructor <;> linarith)
  · refine Or.inr ⟨by omega, ?_⟩
    rcases Nat.mod_two_eq_zero_or_one m with hbit | hbit <;> rw [hbit] <;> push_cast <;>
      constructor <;> linarith
  · refine Or.inl ?_
    push_cast
    constructor <;> linarith

/-! ### Rounding intervals -/

/-- The value of a magnitude. -/
def Magnitude.value (x : Magnitude) : ℚ := x.mantissa * 2 ^ x.exponent

/-- Where the rounding interval of a magnitude starts, in units of its last place. -/
def Magnitude.low (x : Magnitude) : ℚ := x.mantissa - if x.halvesBelow then 1 / 4 else 1 / 2

/-- Where the rounding interval of a magnitude ends, in units of its last place. -/
def Magnitude.high (x : Magnitude) : ℚ := x.mantissa + 1 / 2

/-- A value in the rounding interval of a magnitude, to which the ends belong if the mantissa is
even. -/
def Magnitude.Covers (x : Magnitude) (v : ℚ) : Prop :=
  (x.low < v / 2 ^ x.exponent ∧ v / 2 ^ x.exponent < x.high) ∨
    x.mantissa % 2 = 0 ∧ x.low ≤ v / 2 ^ x.exponent ∧ v / 2 ^ x.exponent ≤ x.high

/-- The magnitude of a positive finite number. -/
structure Magnitude.Canonical (x : Magnitude) : Prop where
  pos : 0 < x.mantissa
  mantissa_lt : x.mantissa < 2 ^ 53
  le_exponent : -1074 ≤ x.exponent
  exponent_le : x.exponent ≤ 971
  normal : 2 ^ 52 ≤ x.mantissa ∨ x.exponent = -1074
  halves : x.halvesBelow = true ↔ x.mantissa = 2 ^ 52 ∧ x.exponent ≠ -1074

theorem two_zpow_pos (k : Int) : (0 : ℚ) < 2 ^ k := zpow_pos (by norm_num) k

theorem le_of_two_zpow_lt {a b : Int} (h : (2 : ℚ) ^ a < 2 ^ (b + 1)) : a ≤ b :=
  Int.lt_add_one_iff.mp ((zpow_lt_zpow_iff_right₀ (by norm_num)).mp h)

theorem Magnitude.Covers.low_le (h : x.Covers v) : x.low ≤ v / 2 ^ x.exponent := by
  rcases h with h | h
  · exact h.1.le
  · exact h.2.1

theorem Magnitude.Covers.le_high (h : x.Covers v) : v / 2 ^ x.exponent ≤ x.high := by
  rcases h with h | h
  · exact h.2.le
  · exact h.2.2

theorem Magnitude.covers_value (x : Magnitude) : x.Covers x.value := by
  have hy : x.value / 2 ^ x.exponent = x.mantissa := by
    rw [Magnitude.value, mul_div_cancel_right₀ _ (two_zpow_pos _).ne']
  refine Or.inl ⟨?_, ?_⟩ <;> rw [hy]
  · unfold Magnitude.low
    split_ifs <;> linarith
  · unfold Magnitude.high
    linarith

/-- A value in the interval that is not in the binade below rounds to the mantissa. -/
theorem Magnitude.Covers.roundsTo (h : x.Covers v)
    (hlow : x.halvesBelow = true → (x.mantissa : ℚ) ≤ v / 2 ^ x.exponent) :
    RoundsTo (v / 2 ^ x.exponent) x.mantissa := by
  unfold Magnitude.Covers Magnitude.low Magnitude.high at h
  cases hx : x.halvesBelow with
  | false =>
    rw [hx] at h
    exact h
  | true =>
    have hge := hlow hx
    rw [hx] at h
    rcases h with h | ⟨heven, h⟩
    · exact Or.inl ⟨by linarith, h.2⟩
    · exact Or.inr ⟨heven, by linarith, h.2⟩

/-- A value in the interval is less than the start of the next binade. -/
theorem Magnitude.Covers.lt (hx : x.Canonical) (h : x.Covers v) :
    v < 2 ^ (x.exponent + 53) := by
  have hm : (x.mantissa : ℚ) + 1 ≤ 2 ^ 53 := by exact_mod_cast hx.mantissa_lt
  have hy : v / 2 ^ x.exponent < 2 ^ 53 := by
    have := h.le_high
    unfold Magnitude.high at this
    linarith
  rw [div_lt_iff₀ (two_zpow_pos _)] at hy
  rwa [zpow_add₀ (by norm_num), mul_comm]

/-- The place of the last bit once a value is rounded to its precision. -/
theorem targetExponent_totalExponent (m : Nat) (e : Int) :
    Format.binary64.targetExponent (totalExponent m e) = max (m.log2 + e - 52) (-1074) := by
  simp only [Format.targetExponent, totalExponent, Format.mantissaBits, Format.minExponent]
  norm_num
  omega

/-- The binade of a value, by the mantissa that is kept of it. -/
theorem Represents.binade (h : Represents em (v / 2 ^ e)) (hm : em.mantissa ≠ 0) :
    (2 : ℚ) ^ (em.mantissa.log2 + e) ≤ v ∧ v < 2 ^ (em.mantissa.log2 + e + 1) := by
  have hpos := two_zpow_pos e
  have hle := h.mantissa_le
  have hlt := h.lt_mantissa_add_one
  rw [le_div_iff₀ hpos] at hle
  rw [div_lt_iff₀ hpos] at hlt
  have h1 : (2 : ℚ) ^ em.mantissa.log2 ≤ em.mantissa := by exact_mod_cast Nat.log2_self_le hm
  have h2 : (em.mantissa : ℚ) + 1 ≤ 2 ^ (em.mantissa.log2 + 1) := by
    exact_mod_cast Nat.lt_log2_self
  constructor
  · rw [zpow_add₀ (by norm_num), zpow_natCast]
    exact (mul_le_mul_of_nonneg_right h1 hpos.le).trans hle
  · rw [show (em.mantissa.log2 + e + 1 : Int) = ((em.mantissa.log2 + 1 : Nat) : Int) + e by
      push_cast; ring, zpow_add₀ (by norm_num), zpow_natCast]
    exact hlt.trans_le (mul_le_mul_of_nonneg_right h2 hpos.le)

/-- Above the numbers that have lost precision, a value in the interval is no further below its
binade than in the next one. -/
theorem Magnitude.Covers.gt (hx : x.Canonical) (h : x.Covers v) (he : x.exponent ≠ -1074) :
    2 ^ (x.exponent + 51) < v := by
  have hm : (2 : ℚ) ^ 52 ≤ x.mantissa := by exact_mod_cast hx.normal.resolve_right he
  have hlow : (x.mantissa : ℚ) - 1 / 2 ≤ x.low := by
    unfold Magnitude.low
    split_ifs <;> linarith
  have hy : (2 : ℚ) ^ 51 < v / 2 ^ x.exponent := by
    have := h.low_le
    linarith
  rw [lt_div_iff₀ (two_zpow_pos _)] at hy
  rwa [zpow_add₀ (by norm_num), mul_comm]

/-- A value in the interval that is not in the binade below is not less than its own binade. -/
theorem Magnitude.Covers.ge (hx : x.Canonical) (h : x.Covers v) (he : x.exponent ≠ -1074)
    (hlow : x.halvesBelow = true → (x.mantissa : ℚ) ≤ v / 2 ^ x.exponent) :
    2 ^ (x.exponent + 52) ≤ v := by
  have hm := hx.normal.resolve_right he
  have hy : (2 : ℚ) ^ 52 ≤ v / 2 ^ x.exponent := by
    cases hb : x.halvesBelow with
    | true =>
      refine le_trans ?_ (hlow hb)
      exact_mod_cast hm
    | false =>
      have hne : x.mantissa ≠ 2 ^ 52 := fun hmin => by
        rw [hx.halves.mpr ⟨hmin, he⟩] at hb
        cases hb
      have hm1 : (2 : ℚ) ^ 52 + 1 ≤ x.mantissa := by exact_mod_cast lt_of_le_of_ne hm hne.symm
      have := h.low_le
      simp only [Magnitude.low, hb, Bool.false_eq_true, if_false] at this
      linarith
  rw [le_div_iff₀ (two_zpow_pos _)] at hy
  rwa [zpow_add₀ (by norm_num), mul_comm]

/-! ### The two shifts -/

theorem mantissa_ofMantissaAndAccuracy (m : Nat) (acc : Accuracy) :
    (ExtendedMantissa.ofMantissaAndAccuracy m acc).mantissa = m := by
  unfold ExtendedMantissa.ofMantissaAndAccuracy
  split <;> rfl

/-- Enough of a value is kept to round it: all its bits, or all down to the last place there is. -/
def Precise (m : Nat) (e : Int) : Prop := 52 ≤ m.log2 ∨ e ≤ -1074

/-- A number in the range of the format is not shifted. -/
theorem shiftToTargetExponent_of_canonical (hx : x.Canonical) :
    shiftToTargetExponent .binary64 x.mantissa x.exponent .exact =
      (⟨x.mantissa, false, false⟩, x.exponent) := by
  have hexp := hx.le_exponent
  have hlog : x.mantissa.log2 ≤ 52 :=
    Nat.lt_succ_iff.mp ((Nat.log2_lt hx.pos.ne').mpr hx.mantissa_lt)
  have hstay :
      (max ((x.mantissa.log2 : Int) + x.exponent - 52) (-1074) - x.exponent).toNat = 0 := by
    omega
  rw [shiftToTargetExponent, targetExponent_totalExponent, shiftToExponent, hstay]
  simp [HShiftRight.hShiftRight, Nat.repeat, ExtendedMantissa.ofMantissaAndAccuracy]

/-- A mantissa that was carried into the next binade is shifted by one place. -/
theorem shiftToTargetExponent_of_carry (he : -1074 ≤ e) :
    shiftToTargetExponent .binary64 (2 ^ 53) e .exact = (⟨2 ^ 52, false, false⟩, e + 1) := by
  have hone : (max (((53 : Nat) : Int) + e - 52) (-1074) - e).toNat = 1 := by omega
  rw [shiftToTargetExponent, targetExponent_totalExponent, shiftToExponent, Nat.log2_two_pow, hone]
  simp [HShiftRight.hShiftRight, Nat.repeat, ExtendedMantissa.ofMantissaAndAccuracy,
    ExtendedMantissa.shiftRightOne]

section Covered

variable {acc : Accuracy} (hx : x.Canonical) (hv : x.Covers v)
  (hr : Represents (.ofMantissaAndAccuracy m acc) (v / 2 ^ e)) (hp : Precise m e)

include hr in
theorem binade_of_represents (hm : m ≠ 0) :
    (2 : ℚ) ^ (m.log2 + e) ≤ v ∧ v < 2 ^ (m.log2 + e + 1) := by
  have := hr.binade (by rwa [mantissa_ofMantissaAndAccuracy])
  rwa [mantissa_ofMantissaAndAccuracy] at this

include hr hp in
/-- Shifting keeps what is known of the value. -/
theorem shiftToTargetExponent_represents {t : Int}
    (ht : max ((m.log2 : Int) + e - 52) (-1074) = t) :
    ∃ em, shiftToTargetExponent .binary64 m e acc = (em, t) ∧ Represents em (v / 2 ^ t) := by
  obtain ⟨k, rfl⟩ := Int.le.dest (show e ≤ t by rcases hp with hp | hp <;> omega)
  refine ⟨ExtendedMantissa.ofMantissaAndAccuracy m acc >>> k, ?_, ?_⟩
  · rw [shiftToTargetExponent, targetExponent_totalExponent, ht, shiftToExponent,
      show (e + (k : Int) - e).toNat = k by omega]
  · have := hr.shiftRight k
    rwa [div_div, ← zpow_natCast, ← zpow_add₀ (by norm_num)] at this

include hx hv hr hp

/-- If nothing is kept of a value, it is rounded at the last place there is. -/
theorem mantissa_ne_zero_of_covers (he : x.exponent ≠ -1074) : m ≠ 0 := by
  rintro rfl
  have hlt := hr.lt_mantissa_add_one
  rw [mantissa_ofMantissaAndAccuracy, div_lt_iff₀ (two_zpow_pos _)] at hlt
  have hlast : e ≤ -1074 := hp.resolve_left (by simp)
  have hgt : (2 : ℚ) ^ (x.exponent + 51) < 2 ^ e :=
    (hv.gt hx he).trans (by simpa using hlt)
  have hexp := (zpow_lt_zpow_iff_right₀ (by norm_num)).mp hgt
  have := hx.le_exponent
  omega

theorem target_of_covers
    (hlow : x.halvesBelow = true → (x.mantissa : ℚ) ≤ v / 2 ^ x.exponent) :
    max ((m.log2 : Int) + e - 52) (-1074) = x.exponent := by
  have hexp := hx.le_exponent
  by_cases hm : m = 0
  · have he : x.exponent = -1074 := not_ne_iff.mp fun hne =>
      mantissa_ne_zero_of_covers hx hv hr hp hne hm
    have hlast : e ≤ -1074 := hp.resolve_left (by simp [hm])
    simp [hm, he]
    omega
  obtain ⟨h1, h2⟩ := binade_of_represents hr hm
  have hle : (m.log2 + e : Int) ≤ x.exponent + 52 :=
    le_of_two_zpow_lt (h1.trans_lt (by rw [add_assoc]; exact hv.lt hx))
  by_cases he : x.exponent = -1074
  · omega
  · have hge := le_of_two_zpow_lt ((hv.ge hx he hlow).trans_lt h2)
    omega

theorem target_of_covers_below (hne : x.exponent ≠ -1074) (hlt : v < 2 ^ (x.exponent + 52)) :
    max ((m.log2 : Int) + e - 52) (-1074) = x.exponent - 1 := by
  have hexp := hx.le_exponent
  obtain ⟨h1, h2⟩ := binade_of_represents hr (mantissa_ne_zero_of_covers hx hv hr hp hne)
  have hle : (m.log2 + e : Int) ≤ x.exponent + 51 :=
    le_of_two_zpow_lt (h1.trans_lt (by rw [add_assoc]; exact hlt))
  have hge := le_of_two_zpow_lt ((hv.gt hx hne).trans h2)
  omega

/-- **The first shift** ends at the last place of the number and rounds to its mantissa, unless the
value is in the binade below: there it ends one place below and carries into the next binade. -/
theorem shiftToTargetExponent_of_covers :
    ∃ em, (shiftToTargetExponent .binary64 m e acc = (em, x.exponent) ∧
        em.roundedMantissa = x.mantissa) ∨
      (shiftToTargetExponent .binary64 m e acc = (em, x.exponent - 1) ∧
        em.roundedMantissa = 2 ^ 53 ∧ x.mantissa = 2 ^ 52 ∧ -1074 ≤ x.exponent - 1) := by
  by_cases hbelow : x.halvesBelow = true ∧ v / 2 ^ x.exponent < x.mantissa
  · obtain ⟨hhalves, hy⟩ := hbelow
    obtain ⟨hmant, hne⟩ := hx.halves.mp hhalves
    have hlow := hv.low_le
    simp only [Magnitude.low, hhalves, if_true, hmant] at hlow
    rw [hmant] at hy
    push_cast at hlow hy
    have hlt : v < 2 ^ (x.exponent + 52) := by
      rw [div_lt_iff₀ (two_zpow_pos _)] at hy
      rwa [zpow_add₀ (by norm_num), mul_comm]
    have hdouble : v / 2 ^ (x.exponent - 1) = 2 * (v / 2 ^ x.exponent) := by
      rw [zpow_sub₀ (by norm_num), zpow_one]
      field_simp
    have hcarry : RoundsTo (v / 2 ^ (x.exponent - 1)) (2 ^ 53) := by
      rw [hdouble]
      refine Or.inr ⟨by norm_num, ?_⟩
      push_cast
      constructor <;> linarith
    obtain ⟨em, hem, hrep⟩ := shiftToTargetExponent_represents hr hp
      (target_of_covers_below hx hv hr hp hne hlt)
    refine ⟨em, Or.inr ⟨hem, hrep.roundsTo.unique hcarry, hmant, ?_⟩⟩
    have := hx.le_exponent
    omega
  · have hlow : x.halvesBelow = true → (x.mantissa : ℚ) ≤ v / 2 ^ x.exponent :=
      fun hb => not_lt.mp fun hlt => hbelow ⟨hb, hlt⟩
    obtain ⟨em, hem, hrep⟩ := shiftToTargetExponent_represents hr hp
      (target_of_covers hx hv hr hp hlow)
    exact ⟨em, Or.inl ⟨hem, hrep.roundsTo.unique (hv.roundsTo hlow)⟩⟩

/-- **Rounding gives the number whose interval covers the exact value.** -/
theorem roundWithAccuracy_of_covers (s : Sign) :
    roundWithAccuracy .binary64 s m e acc = .finite s x.mantissa x.exponent hx.pos := by
  obtain ⟨em, ⟨hem, hround⟩ | ⟨hem, hround, hmant, hexp⟩⟩ :=
    shiftToTargetExponent_of_covers hx hv hr hp
  · simp only [roundWithAccuracy, hem, hround, shiftToTargetExponent_of_canonical hx, hx.pos.ne',
      dite_false]
  · simp only [roundWithAccuracy, hem, hround, shiftToTargetExponent_of_carry hexp, hmant,
      sub_add_cancel, Nat.pow_eq_zero, OfNat.ofNat_ne_zero, false_and, dite_false]

end Covered

end Decimal

end FiniteAutomata
