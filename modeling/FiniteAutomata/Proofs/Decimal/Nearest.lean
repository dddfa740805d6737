import FiniteAutomata.Decimal.Numeral
import FiniteAutomata.Proofs.Decimal.Rounding

/-! # The number nearest to a decimal

A decimal is read by a multiplication or a division: exactly with all its digits, or, if they are
few and the exponent is small, with a power of ten from a table. Multiplying, dividing and giving a
mantissa more bits all end in a rounding, so each of them gives the number whose rounding interval
covers the exact result (`mul_of_covers`, `div_of_covers`, `round_of_covers`). Hence a weight is the
number nearest to every decimal that its interval covers (`nearest_eq_of_covers`). -/

namespace FiniteAutomata

open Float.Model Float.Model.UnpackedFloat

namespace Decimal

variable {w : Float} {x : Magnitude} {v : ℚ} {m : Nat} {e : Int}

/-! ### Multiplying, dividing and reading a decimal -/

/-- The remainder of a division says where the quotient lies. -/
theorem represents_quotient (n : Nat) {d : Nat} (hd : 0 < d) :
    Represents (.ofMantissaAndAccuracy (n / d) (accuracyOfFraction (n % d) d)) (n / d) := by
  have hdq : (0 : ℚ) < d := by exact_mod_cast hd
  have hn : (n : ℚ) / d = (n / d : Nat) + (n % d : Nat) / (d : ℚ) := by
    rw [div_eq_iff hdq.ne', add_mul, div_mul_cancel₀ _ hdq.ne']
    exact_mod_cast (Nat.div_add_mod' n d).symm
  rw [hn, accuracyOfFraction]
  split_ifs with hzero
  · simp [Represents, ExtendedMantissa.ofMantissaAndAccuracy, hzero]
  have hpos : (0 : ℚ) < (n % d : Nat) / (d : ℚ) :=
    div_pos (by exact_mod_cast Nat.pos_of_ne_zero hzero) hdq
  have hlt : ((n % d : Nat) : ℚ) / d < 1 :=
    (div_lt_one hdq).mpr (by exact_mod_cast Nat.mod_lt n hd)
  cases hcompare : compare (2 * (n % d)) d with
  | lt =>
    have h : (2 * (n % d : Nat) : ℚ) < d := by exact_mod_cast Nat.compare_eq_lt.mp hcompare
    have hhalf : ((n % d : Nat) : ℚ) / d < 1 / 2 := by
      rw [div_lt_div_iff₀ hdq (by norm_num)]
      linarith
    simp only [Represents, ExtendedMantissa.ofMantissaAndAccuracy]
    constructor <;> linarith
  | eq =>
    have h : (2 * (n % d : Nat) : ℚ) = d := by exact_mod_cast Nat.compare_eq_eq.mp hcompare
    have hhalf : ((n % d : Nat) : ℚ) / d = 1 / 2 := by
      rw [div_eq_div_iff hdq.ne' (by norm_num)]
      linarith
    simp only [Represents, ExtendedMantissa.ofMantissaAndAccuracy]
    linarith
  | gt =>
    have h : (d : ℚ) < 2 * (n % d : Nat) := by exact_mod_cast Nat.compare_eq_gt.mp hcompare
    have hhalf : 1 / 2 < ((n % d : Nat) : ℚ) / d := by
      rw [div_lt_div_iff₀ (by norm_num) hdq]
      linarith
    simp only [Represents, ExtendedMantissa.ofMantissaAndAccuracy]
    constructor <;> linarith

theorem log2_shiftLeft {n : Nat} (hn : 0 < n) (k : Nat) : (n <<< k).log2 = n.log2 + k := by
  have hpos : 0 < 2 ^ k := Nat.two_pow_pos k
  have hle := Nat.log2_self_le hn.ne'
  have hlt := Nat.lt_log2_self (n := n)
  rw [Nat.shiftLeft_eq]
  refine (Nat.log2_eq_iff (Nat.mul_pos hn hpos).ne').mpr ⟨?_, ?_⟩
  · rw [pow_add]
    exact Nat.mul_le_mul_right _ hle
  · rw [Nat.add_right_comm, pow_add]
    exact Nat.mul_lt_mul_of_pos_right hlt hpos

/-- A quotient by less than `2 ^ (b + 1)` has at least as many bits as are left of `n` above `b`. -/
theorem le_log2_div {n d : Nat} (hd : 0 < d) (h : d.log2 + 53 ≤ n.log2) :
    52 ≤ (n / d).log2 := by
  have hn : n ≠ 0 := by
    rintro rfl
    simp at h
  have hquotient : 2 ^ 52 ≤ n / d := by
    rw [Nat.le_div_iff_mul_le hd]
    calc 2 ^ 52 * d ≤ 2 ^ 52 * 2 ^ (d.log2 + 1) :=
          Nat.mul_le_mul_left _ Nat.lt_log2_self.le
      _ = 2 ^ (d.log2 + 53) := by rw [← pow_add]; congr 1; omega
      _ ≤ 2 ^ n.log2 := Nat.pow_le_pow_right (by norm_num) h
      _ ≤ n := Nat.log2_self_le hn
  exact (Nat.le_log2 (by omega)).mpr hquotient

section Operations

variable (hx : x.Canonical)

include hx

theorem mul_of_covers {m₁ m₂ : Nat} {e₁ e₂ : Int} (h₁ : 0 < m₁) (h₂ : 0 < m₂)
    (hv : x.Covers (m₁ * 2 ^ e₁ * (m₂ * 2 ^ e₂))) (hp : Precise (m₁ * m₂) (e₁ + e₂)) :
    UnpackedFloat.mul .binary64 (.finite .positive m₁ e₁ h₁) (.finite .positive m₂ e₂ h₂) =
      .finite .positive x.mantissa x.exponent hx.pos := by
  refine roundWithAccuracy_of_covers hx hv ?_ hp _
  have hvalue : (m₁ * 2 ^ e₁ * (m₂ * 2 ^ e₂) : ℚ) / 2 ^ (e₁ + e₂) = (m₁ * m₂ : Nat) := by
    rw [zpow_add₀ (by norm_num), div_eq_iff (by positivity)]
    push_cast
    ring
  rw [hvalue]
  exact represents_exact _

theorem div_of_covers {m₁ m₂ : Nat} {e₁ e₂ : Int} (h₁ : 0 < m₁) (h₂ : 0 < m₂)
    (hv : x.Covers (m₁ * 2 ^ e₁ / (m₂ * 2 ^ e₂))) :
    UnpackedFloat.div .binary64 (.finite .positive m₁ e₁ h₁) (.finite .positive m₂ e₂ h₂) =
      .finite .positive x.mantissa x.exponent hx.pos := by
  have htarget : Format.binary64.targetExponent (totalExponent m₁ e₁ - totalExponent m₂ e₂) =
      max (m₁.log2 + e₁ - (m₂.log2 + e₂) - 53) (-1074) := by
    simp only [Format.targetExponent, totalExponent, Format.mantissaBits, Format.minExponent]
    norm_num
    omega
  -- the quotient is taken at a place `e₁ - e₂ - k` that leaves it enough bits
  obtain ⟨k, hk⟩ : ∃ k : Nat, e₁ - e₂ - k = min (e₁ - e₂)
      (max (m₁.log2 + e₁ - (m₂.log2 + e₂) - 53) (-1074)) :=
    ⟨(e₁ - e₂ - min (e₁ - e₂) (max (m₁.log2 + e₁ - (m₂.log2 + e₂) - 53) (-1074))).toNat, by omega⟩
  have hcore : divCore .binary64 m₁ e₁ m₂ e₂ = ((m₁ <<< k) / m₂, e₁ - e₂ - k,
      accuracyOfFraction ((m₁ <<< k) % m₂) m₂) := by
    rw [divCore, htarget, ← hk, show (e₁ - e₂ - (e₁ - e₂ - (k : Int))).toNat = k by omega]
  have hvalue : (m₁ * 2 ^ e₁ / (m₂ * 2 ^ e₂) : ℚ) / 2 ^ (e₁ - e₂ - k) =
      ((m₁ <<< k : Nat) : ℚ) / m₂ := by
    rw [Nat.shiftLeft_eq, zpow_sub₀ (by norm_num), zpow_sub₀ (by norm_num), zpow_natCast]
    push_cast
    have := two_zpow_pos e₁
    have := two_zpow_pos e₂
    field_simp
  have hprecise : Precise ((m₁ <<< k) / m₂) (e₁ - e₂ - k) := by
    by_cases hlast : e₁ - e₂ - k ≤ -1074
    · exact Or.inr hlast
    · refine Or.inl (le_log2_div h₂ ?_)
      rw [log2_shiftLeft h₁ k]
      omega
  have hr := represents_quotient (m₁ <<< k) h₂
  rw [← hvalue] at hr
  simp only [UnpackedFloat.div, hcore]
  exact roundWithAccuracy_of_covers hx hv hr hprecise _

/-- A mantissa may be given more bits before it is rounded. -/
theorem round_of_covers {m : Nat} {e : Int} (hm : 0 < m) (hv : x.Covers (m * 2 ^ e)) :
    UnpackedFloat.round .binary64 .positive m e =
      .finite .positive x.mantissa x.exponent hx.pos := by
  have htarget := targetExponent_totalExponent m e
  obtain ⟨k, hk⟩ : ∃ k : Nat,
    (e - Format.binary64.targetExponent (totalExponent m e)).toNat = k := ⟨_, rfl⟩
  have hvalue : (m * 2 ^ e : ℚ) / 2 ^ (e - k) = (m <<< k : Nat) := by
    rw [Nat.shiftLeft_eq, zpow_sub₀ (by norm_num), zpow_natCast]
    push_cast
    have := two_zpow_pos e
    field_simp
  have hprecise : Precise (m <<< k) (e - k) := by
    rw [Precise, log2_shiftLeft hm]
    omega
  simp only [UnpackedFloat.round, decreaseExponent, hk]
  refine roundWithAccuracy_of_covers hx hv ?_ hprecise _
  rw [hvalue]
  exact represents_exact _

/-- A covered value is positive and bounded. -/
theorem bounds_of_covers (hv : x.Covers v) : 2 ^ (-1075 : Int) ≤ v ∧ v < 2 ^ (1024 : Int) := by
  have hexp := hx.le_exponent
  have hlow : (1 : ℚ) / 2 ≤ v / 2 ^ x.exponent := by
    have hm : (1 : ℚ) ≤ x.mantissa := by exact_mod_cast hx.pos
    have := hv.low_le
    unfold Magnitude.low at this
    split_ifs at this <;> linarith
  constructor
  · calc (2 : ℚ) ^ (-1075 : Int) ≤ 2 ^ (x.exponent - 1) :=
          zpow_le_zpow_right₀ (by norm_num) (by omega)
      _ = 1 / 2 * 2 ^ x.exponent := by rw [zpow_sub₀ (by norm_num), zpow_one]; ring
      _ ≤ v := (le_div_iff₀ (two_zpow_pos _)).mp hlow
  · have htop := hx.exponent_le
    exact (hv.lt hx).trans_le (zpow_le_zpow_right₀ (by norm_num) (by omega))

/-- The exponent of a covered decimal is in the range in which powers of ten are computed. -/
theorem exponent_of_covers {n : Nat} {e : Int} (hv : x.Covers (n * 10 ^ e)) :
    0 < n ∧ e ≤ 2 ^ 11 ∧ -(2 ^ 11 + n.log2 : Int) ≤ e := by
  obtain ⟨hlow, hhigh⟩ := bounds_of_covers hx hv
  have hn : n ≠ 0 := by
    rintro rfl
    simp only [Nat.cast_zero, zero_mul] at hlow
    exact absurd (two_zpow_pos (-1075)) (not_lt.mpr hlow)
  refine ⟨Nat.pos_of_ne_zero hn, ?_, ?_⟩
  · by_contra hbig
    have hone : (1 : ℚ) ≤ n := by exact_mod_cast Nat.pos_of_ne_zero hn
    have hge : (2 : ℚ) ^ (1024 : Int) ≤ n * 10 ^ e :=
      calc (2 : ℚ) ^ (1024 : Int) ≤ 2 ^ e := zpow_le_zpow_right₀ (by norm_num) (by omega)
        _ ≤ 10 ^ e := zpow_le_zpow_left₀ (by omega) (by norm_num) (by norm_num)
        _ ≤ n * 10 ^ e := le_mul_of_one_le_left (by positivity) hone
    linarith
  · by_contra hsmall
    obtain ⟨k, rfl⟩ : ∃ k : Nat, e = -k := ⟨(-e).toNat, by omega⟩
    have hlog : (n : ℚ) ≤ 2 ^ (n.log2 + 1) := by exact_mod_cast Nat.lt_log2_self.le
    have hpow : ((10 : ℚ) ^ (-(k : Int))) ≤ 2 ^ (-(k : Int)) := by
      rw [zpow_neg, zpow_neg, zpow_natCast, zpow_natCast]
      exact inv_anti₀ (by positivity) (pow_le_pow_left₀ (by norm_num) (by norm_num) k)
    have hlt : (n : ℚ) * 10 ^ (-(k : Int)) < 2 ^ (-1075 : Int) :=
      calc (n : ℚ) * 10 ^ (-(k : Int)) ≤ 2 ^ (n.log2 + 1) * 2 ^ (-(k : Int)) := by gcongr
        _ = 2 ^ ((n.log2 + 1 : Nat) + -(k : Int)) := by
            rw [zpow_add₀ (by norm_num), zpow_natCast]
        _ < 2 ^ (-1075 : Int) := zpow_lt_zpow_right₀ (by norm_num) (by push_cast; omega)
    linarith

/-- **Reading a decimal exactly** gives the number whose interval covers it. -/
theorem ofScientific_of_covers {n : Nat} {e : Int} (hv : x.Covers (n * 10 ^ e)) :
    UnpackedFloat.ofScientific .binary64 n e = .finite .positive x.mantissa x.exponent hx.pos := by
  obtain ⟨hn, hbig, hsmall⟩ := exponent_of_covers hx hv
  rw [UnpackedFloat.ofScientific, dif_neg hn.ne', if_neg (not_lt.mpr hbig),
    if_neg (not_lt.mpr hsmall)]
  split_ifs with he
  · obtain ⟨k, rfl⟩ := Int.eq_ofNat_of_zero_le he
    refine mul_of_covers hx _ _ ?_ ?_
    · rw [Nat.shiftLeft_eq]
      convert hv using 1
      push_cast
      rw [show Format.binary64.mantissaBits = 53 from rfl, zpow_neg, zpow_natCast]
      simp
    · have hlong : 2 ^ 52 ≤ n <<< Format.binary64.mantissaBits * 10 ^ (k : Int).toNat := by
        rw [Nat.shiftLeft_eq, show Format.binary64.mantissaBits = 53 from rfl]
        exact (by omega : 2 ^ 52 ≤ n * 2 ^ 53).trans
          (Nat.le_mul_of_pos_right _ (Nat.pow_pos (by norm_num)))
      exact Or.inl ((Nat.le_log2 (by omega)).mpr hlong)
  · obtain ⟨k, rfl⟩ : ∃ k : Nat, e = -k := ⟨(-e).toNat, by omega⟩
    refine div_of_covers hx _ _ ?_
    convert hv using 1
    simp [zpow_neg, div_eq_mul_inv]

end Operations

/-! ### Small decimals

A decimal with few digits and a small exponent is read by one multiplication or division by a
power of ten from a table, whose entries are exact. -/

theorem unpack_pack_of_canonical (hx : x.Canonical) :
    (Float.Model.pack (.finite .positive x.mantissa x.exponent hx.pos)).unpack =
      .finite .positive x.mantissa x.exponent hx.pos :=
  unpack_pack hx.pos hx.mantissa_lt hx.le_exponent hx.exponent_le hx.normal

/-- Whether a number is a power of ten, with a mantissa of full length. -/
def isPowerOfTen (f : Float) (k : Nat) : Bool :=
  match f.toModel.unpack with
  | .finite .positive m e _ => 2 ^ 52 ≤ m && m * 2 ^ e.toNat == 10 ^ k * 2 ^ (-e).toNat
  | _ => false

theorem isPowerOfTen_table : ∀ k : Fin 23,
    isPowerOfTen (getElem Float.exactlyRepresentablePowersOfTen k.val k.isLt) k = true := by
  decide +kernel

theorem exists_unpack_of_isPowerOfTen {f : Float} {k : Nat} (h : isPowerOfTen f k = true) :
    ∃ m e hm, f.toModel.unpack = .finite .positive m e hm ∧ 2 ^ 52 ≤ m ∧
      (m : ℚ) * 2 ^ e = 10 ^ k := by
  unfold isPowerOfTen at h
  split at h
  · next m e hm hu =>
    rw [Bool.and_eq_true, decide_eq_true_eq, beq_iff_eq] at h
    refine ⟨m, e, hm, hu, h.1, ?_⟩
    have hq : (m : ℚ) * 2 ^ e.toNat = 10 ^ k * 2 ^ (-e).toNat := by exact_mod_cast h.2
    rcases Int.le_total 0 e with he | he
    · obtain ⟨j, rfl⟩ := Int.eq_ofNat_of_zero_le he
      simpa using hq
    · obtain ⟨j, rfl⟩ : ∃ j : Nat, e = -j := ⟨(-e).toNat, by omega⟩
      rw [zpow_neg, zpow_natCast, ← div_eq_mul_inv, div_eq_iff (by positivity)]
      simpa using hq
  · cases h

/-- **A number of at most 53 bits is exact.** -/
theorem exists_unpack_toFloat {n : Nat} (hn : 0 < n) (hlt : n < 2 ^ 53) :
    ∃ m e hm, n.toUInt64.toFloat.toModel.unpack = .finite .positive m e hm ∧ 2 ^ 52 ≤ m ∧
      (m : ℚ) * 2 ^ e = n := by
  have hlog : n.log2 ≤ 52 := Nat.lt_succ_iff.mp ((Nat.log2_lt hn.ne').mpr hlt)
  obtain ⟨k, hk⟩ : ∃ k, n.log2 + k = 52 := ⟨52 - n.log2, by omega⟩
  have hpos : 0 < n <<< k := by
    rw [Nat.shiftLeft_eq]
    positivity
  have hfull := (Nat.log2_eq_iff hpos.ne').mp ((log2_shiftLeft hn k).trans hk)
  let x : Magnitude := ⟨n <<< k, -k, n <<< k == 2 ^ 52⟩
  have hx : x.Canonical :=
    { pos := hpos
      mantissa_lt := hfull.2
      le_exponent := by change -1074 ≤ -(k : Int); omega
      exponent_le := by change -(k : Int) ≤ 971; omega
      normal := Or.inl hfull.1
      halves := by
        change (n <<< k == 2 ^ 52) = true ↔ n <<< k = 2 ^ 52 ∧ -(k : Int) ≠ -1074
        rw [beq_iff_eq]
        exact ⟨fun h => ⟨h, by omega⟩, And.left⟩ }
  have hvalue : x.value = n := by
    change ((n <<< k : Nat) : ℚ) * 2 ^ (-(k : Int)) = n
    rw [Nat.shiftLeft_eq, zpow_neg, zpow_natCast]
    push_cast
    field_simp
  have hround : UnpackedFloat.ofNat .binary64 n =
      .finite .positive x.mantissa x.exponent hx.pos := by
    have hcompare : compare (n : Int) 0 = .gt := Int.compare_eq_gt.mpr (by exact_mod_cast hn)
    simp only [UnpackedFloat.ofNat, UnpackedFloat.ofInt, UnpackedFloat.normalize, hcompare,
      Int.toNat_natCast]
    refine round_of_covers hx hn ?_
    rw [zpow_zero, mul_one, ← hvalue]
    exact x.covers_value
  refine ⟨x.mantissa, x.exponent, hx.pos, ?_, hfull.1, hvalue⟩
  have htoNat : n.toUInt64.toNat = n := UInt64.toNat_ofNat_of_lt' (hlt.trans (by norm_num))
  change (Float.Model.pack (UnpackedFloat.ofNat .binary64 n.toUInt64.toNat)).unpack = _
  rw [htoNat, hround, unpack_pack_of_canonical hx]

/-! ### The number nearest to a decimal -/

theorem ofScientific_of_small (hx : x.Canonical) {n k : Nat} (negative : Bool)
    (hn : 0 < n) (hsmall : n < 2 ^ 53 ∧ k ≤ 22)
    (hv : x.Covers (n * 10 ^ (if negative then -(k : Int) else k))) :
    (Float.ofScientific n negative k).toModel =
      Float.Model.pack (.finite .positive x.mantissa x.exponent hx.pos) := by
  obtain ⟨m₁, e₁, h₁, hu₁, hfull₁, hv₁⟩ := exists_unpack_toFloat hn hsmall.1
  obtain ⟨m₂, e₂, h₂, hu₂, hfull₂, hv₂⟩ :=
    exists_unpack_of_isPowerOfTen (isPowerOfTen_table ⟨k, by omega⟩)
  rw [Float.ofScientific, dif_pos hsmall]
  cases negative with
  | false =>
    have hlong : 2 ^ 52 ≤ m₁ * m₂ := hfull₁.trans (Nat.le_mul_of_pos_right _ h₂)
    have hmul := mul_of_covers hx h₁ h₂ (by rw [hv₁, hv₂]; simpa using hv)
      (Or.inl ((Nat.le_log2 (by positivity)).mpr hlong))
    rw [← hmul, ← hu₁, ← hu₂]
    rfl
  | true =>
    have hdiv := div_of_covers hx h₁ h₂ (by
      rw [hv₁, hv₂]
      simpa [zpow_neg, div_eq_mul_inv] using hv)
    rw [← hdiv, ← hu₁, ← hu₂]
    rfl

/-- **The number nearest to a decimal** is the one whose rounding interval covers it. -/
theorem toModel_nearest (hx : x.Canonical) {n : Nat} {e : Int} (hv : x.Covers (n * 10 ^ e)) :
    (nearest n e).toModel =
      Float.Model.pack (.finite .positive x.mantissa x.exponent hx.pos) := by
  have hexponent : (if decide (e < 0) = true then -(e.natAbs : Int) else e.natAbs) = e := by
    split_ifs with h
    · have := of_decide_eq_true h
      omega
    · have := of_decide_eq_false (Bool.not_eq_true _ ▸ h)
      omega
  unfold nearest
  by_cases hsmall : n < 2 ^ 53 ∧ e.natAbs ≤ 22
  · refine ofScientific_of_small hx _ (exponent_of_covers hx hv).1 hsmall ?_
    rwa [hexponent]
  · rw [Float.ofScientific, dif_neg hsmall]
    change Float.Model.pack (UnpackedFloat.ofScientific .binary64 n
      (if decide (e < 0) = true then Int.negOfNat e.natAbs else Int.ofNat e.natAbs)) = _
    rw [Int.negOfNat_eq, Int.ofNat_eq_natCast, hexponent, ofScientific_of_covers hx hv]

/-! ### Weights -/

/-- **The magnitude of a weight** is what its bits are unpacked to. -/
theorem ofFloat_of_unpack {hm : 0 < m} (hu : w.toModel.unpack = .finite .positive m e hm) :
    Magnitude.ofFloat w = ⟨m, e, m == 2 ^ 52 && e != -1074⟩ ∧ (Magnitude.ofFloat w).Canonical := by
  -- the fields of the bits, with the exponent field neither the last one nor too long
  obtain ⟨b, hb⟩ : ∃ b, w.toBits.toNat = b := ⟨_, rfl⟩
  have hmax : b / 2 ^ 52 % 2 ^ 11 ≠ 2047 := hb ▸ exponentField_ne_of_unpack hu
  have hf : b / 2 ^ 52 % 2 ^ 11 = 0 ∧ m = b % 2 ^ 52 ∧ e = -1074 ∨
      b / 2 ^ 52 % 2 ^ 11 ≠ 0 ∧ m = 2 ^ 52 + b % 2 ^ 52 ∧
        e = (b / 2 ^ 52 % 2 ^ 11 : Nat) - 1075 := hb ▸ (fields_of_unpack hu).2
  have hfraction : b % 2 ^ 52 < 2 ^ 52 := Nat.mod_lt _ (by norm_num)
  have hmagnitude : Magnitude.ofFloat w = ⟨m, e, m == 2 ^ 52 && e != -1074⟩ := by
    unfold Magnitude.ofFloat
    simp only [hb, Nat.pow_eq]
    rcases hf with ⟨hzero, hm, he⟩ | ⟨hnonzero, hm, he⟩
    · rw [if_pos hzero, hm, he]
      simp
    · rw [if_neg hnonzero, Magnitude.mk.injEq, Bool.eq_iff_iff]
      refine ⟨by omega, by omega, ?_⟩
      simp only [Bool.and_eq_true, beq_iff_eq, decide_eq_true_eq, bne_iff_ne]
      omega
  refine ⟨hmagnitude, ?_⟩
  rw [hmagnitude]
  constructor
  · exact hm
  · show m < 2 ^ 53
    omega
  · show -1074 ≤ e
    omega
  · show e ≤ 971
    omega
  · show 2 ^ 52 ≤ m ∨ e = -1074
    omega
  · show (m == 2 ^ 52 && e != -1074) = true ↔ m = 2 ^ 52 ∧ e ≠ -1074
    rw [Bool.and_eq_true, beq_iff_eq, bne_iff_ne]

theorem canonical_ofFloat (h : isWeight w = true) : (Magnitude.ofFloat w).Canonical := by
  obtain ⟨m, e, hm, hu⟩ := exists_unpack_of_isWeight h
  exact (ofFloat_of_unpack hu).2

/-- **A weight is the number nearest to every decimal that its rounding interval covers.** -/
theorem nearest_eq_of_covers (h : isWeight w = true) {n : Nat} {e : Int}
    (hv : (Magnitude.ofFloat w).Covers (n * 10 ^ e)) : nearest n e = w := by
  obtain ⟨m, k, hm, hu⟩ := exists_unpack_of_isWeight h
  obtain ⟨hmagnitude, hx⟩ := ofFloat_of_unpack hu
  rw [hmagnitude] at hx hv
  refine eq_of_unpack ?_ hu
  rw [toModel_nearest hx hv]
  exact unpack_pack_of_canonical hx

end Decimal

end FiniteAutomata
