import FiniteAutomata.Decimal.Shortest
import FiniteAutomata.Program
import Mathlib

/-! # The bits of a weight

A weight is a positive finite floating-point number. Its unpacked form has the positive sign, and a
mantissa and an exponent that determine its bits (`toBits_of_unpack`). So the sign bit of a weight
is not set (`isNegative_of_isWeight`), a weight equals itself, and weights that compare equal are
the same number (`eq_of_beq_of_isWeight`). -/

namespace FiniteAutomata

open Float.Model

/-! ### Fields of the bits -/

theorem toNat_unpackMantissa (b : BitVec Format.binary64.numBits) :
    (UnpackedFloat.unpackMantissa b).toNat = b.toNat % 2 ^ 52 := by
  simp [UnpackedFloat.unpackMantissa]

theorem toNat_unpackExponent (b : BitVec Format.binary64.numBits) :
    (UnpackedFloat.unpackExponent b).toNat = b.toNat / 2 ^ 52 % 2 ^ 11 := by
  simp [UnpackedFloat.unpackExponent, Nat.shiftRight_eq_div_pow]

/-- A sign that is read as positive comes from bits that are not negative. -/
theorem toNat_div_of_positive {b : BitVec Format.binary64.numBits}
    (h : UnpackedFloat.Sign.ofBitVec (UnpackedFloat.unpackSign b) = .positive) :
    b.toNat / 2 ^ 63 % 2 = 0 := by
  unfold UnpackedFloat.Sign.ofBitVec at h
  split_ifs at h with h0
  have h1 : (UnpackedFloat.unpackSign b).toNat = 0 := by rw [h0]; rfl
  rw [← h1]
  simp [UnpackedFloat.unpackSign, Nat.shiftRight_eq_div_pow]

/-- **The bits behind a positive finite number**: the sign is not set, and either the exponent field
is zero and the mantissa field is the mantissa, or the mantissa has one more bit in front. -/
theorem fields_of_unpack {b : BitVec Format.binary64.numBits} {m : Nat} {e : Int} {hm : 0 < m}
    (h : UnpackedFloat.unpack Format.binary64 b = .finite .positive m e hm) :
    b.toNat / 2 ^ 63 % 2 = 0 ∧
      (b.toNat / 2 ^ 52 % 2 ^ 11 = 0 ∧ m = b.toNat % 2 ^ 52 ∧ e = -1074 ∨
        b.toNat / 2 ^ 52 % 2 ^ 11 ≠ 0 ∧ m = 2 ^ 52 + b.toNat % 2 ^ 52 ∧
          e = (b.toNat / 2 ^ 52 % 2 ^ 11 : Nat) - 1075) := by
  unfold UnpackedFloat.unpack at h
  simp only at h
  split_ifs at h with h1 h2 h3 h4
  · simp only [UnpackedFloat.finite.injEq] at h
    obtain ⟨hs, h5, h6⟩ := h
    refine ⟨toNat_div_of_positive hs, Or.inl ⟨?_, ?_, ?_⟩⟩
    · rw [← toNat_unpackExponent, h3]
      rfl
    · rw [← h5, toNat_unpackMantissa]
    · rw [h3] at h6
      rw [← h6]
      rfl
  · simp only [UnpackedFloat.finite.injEq] at h
    obtain ⟨hs, h5, h6⟩ := h
    refine ⟨toNat_div_of_positive hs, Or.inr ⟨?_, ?_, ?_⟩⟩
    · rw [← toNat_unpackExponent]
      exact fun h0 => h3 (BitVec.eq_of_toNat_eq h0)
    · have hlt : b.toNat % 2 ^ 52 < 2 ^ 52 := Nat.mod_lt _ (by decide)
      have hor := Nat.two_pow_add_eq_or_of_lt hlt 1
      rw [← h5, BitVec.toNat_append, toNat_unpackMantissa]
      simpa [Nat.shiftLeft_eq] using hor.symm
    · rw [← h6, toNat_unpackExponent]
      rfl

/-- Bits with the same positive finite number behind them are the same. -/
theorem toBits_of_unpack {b b' : BitVec Format.binary64.numBits} {m : Nat} {e : Int} {hm : 0 < m}
    (h : UnpackedFloat.unpack Format.binary64 b = .finite .positive m e hm)
    (h' : UnpackedFloat.unpack Format.binary64 b' = .finite .positive m e hm) : b = b' := by
  have hb : b.toNat < 2 ^ 64 := b.isLt
  have hb' : b'.toNat < 2 ^ 64 := b'.isLt
  obtain ⟨hs, hf⟩ := fields_of_unpack h
  obtain ⟨hs', hf'⟩ := fields_of_unpack h'
  refine BitVec.eq_of_toNat_eq ?_
  rcases hf with ⟨h1, h2, h3⟩ | ⟨h1, h2, h3⟩ <;>
    rcases hf' with ⟨h1', h2', h3'⟩ | ⟨h1', h2', h3'⟩ <;> omega

/-- Of a finite number the exponent field is not the last one. -/
theorem exponentField_ne_of_unpack {b : BitVec Format.binary64.numBits} {s : UnpackedFloat.Sign}
    {m : Nat} {e : Int} {hm : 0 < m}
    (h : UnpackedFloat.unpack Format.binary64 b = .finite s m e hm) :
    b.toNat / 2 ^ 52 % 2 ^ 11 ≠ 2047 := by
  intro hfield
  have hmax : UnpackedFloat.unpackExponent b = -1#11 :=
    BitVec.eq_of_toNat_eq ((toNat_unpackExponent b).trans hfield)
  simp only [UnpackedFloat.unpack, hmax, if_true] at h
  split_ifs at h

/-! ### Packing -/

open UnpackedFloat

theorem unpackSign_packComponents {spec : Format} {sign exponent mantissa} :
    unpackSign (packComponents spec sign exponent mantissa) = sign.toBitVec := by
  apply BitVec.eq_of_getLsbD_eq
  intro i hi
  obtain rfl : i = 0 := by omega
  simp [unpackSign, packComponents, BitVec.getLsbD_append, BitVec.getElem_append]

theorem toNat_implicit_append (b : BitVec 52) : (1#1 ++ b).toNat = 2 ^ 52 + b.toNat := by
  rw [BitVec.toNat_append, ← Nat.shiftLeft_add_eq_or_of_lt b.isLt]
  simp [Nat.shiftLeft_eq]

/-- What is unpacked from a sign, an exponent field and a mantissa field. -/
theorem unpack_packComponents_normal {f : BitVec 11} {b : BitVec 52} (hmax : f ≠ -1#11)
    (hmin : f ≠ 0#11) (hpos : 0 < 2 ^ 52 + b.toNat) :
    UnpackedFloat.unpack .binary64 (packComponents .binary64 .positive f b) =
      .finite .positive (2 ^ 52 + b.toNat) ((f.toNat : Int) - 1075) hpos := by
  simp only [UnpackedFloat.unpack, unpackExponent_packComponents, unpackMantissa_packComponents,
    unpackSign_packComponents, hmax, hmin, if_false, toNat_implicit_append]
  rfl

theorem unpack_packComponents_subnormal {b : BitVec 52} (hpos : 0 < b.toNat) :
    UnpackedFloat.unpack .binary64 (packComponents .binary64 .positive 0#11 b) =
      .finite .positive b.toNat (-1074) hpos := by
  have hmax : 0#11 ≠ -1#11 := by decide
  have hb : b ≠ 0#52 := by
    rintro rfl
    exact absurd hpos (by decide)
  simp only [UnpackedFloat.unpack, unpackExponent_packComponents, unpackMantissa_packComponents,
    unpackSign_packComponents, hmax, hb, if_false, if_true, dite_false]
  rfl

/-- **Packing loses nothing**: a mantissa and an exponent in the range of the format are unpacked
again from the bits they are packed into. -/
theorem unpack_pack {m : Nat} {e : Int} (hm : 0 < m) (hlt : m < 2 ^ 53) (hge : -1074 ≤ e)
    (hle : e ≤ 971) (hn : 2 ^ 52 ≤ m ∨ e = -1074) :
    (Float.Model.pack (.finite .positive m e hm)).unpack = .finite .positive m e hm := by
  obtain ⟨f, rfl⟩ : ∃ f : Nat, (f : Int) - 1075 = e := ⟨(e + 1075).toNat, by omega⟩
  have hbias :
      ((f : Int) - 1075 + (Format.binary64.exponentBias : Int) + (52 : Nat)).toNat = f := by
    norm_num [Format.exponentBias]
    omega
  have hover : ¬ 2 ^ 11 ≤ f + 1 := by omega
  change UnpackedFloat.unpack .binary64
    (UnpackedFloat.pack .binary64 (.finite .positive m ((f : Int) - 1075) hm)) = _
  have hmantissa : (BitVec.ofNat 52 m).toNat = m % 2 ^ 52 := BitVec.toNat_ofNat ..
  by_cases hnormal : 2 ^ 52 ≤ m
  · have hlog : m.log2 = 52 := (Nat.log2_eq_iff hm.ne').mpr ⟨hnormal, hlt⟩
    have hfield : (BitVec.ofNat 11 f).toNat = f := by
      rw [BitVec.toNat_ofNat, Nat.mod_eq_of_lt (by omega)]
    have hmax : BitVec.ofNat 11 f ≠ -1#11 := fun h => by
      have := hfield.symm.trans (congrArg BitVec.toNat h)
      rw [show (-1#11).toNat = 2047 from rfl] at this
      omega
    have hmin : BitVec.ofNat 11 f ≠ 0#11 := fun h => by
      have := hfield.symm.trans (congrArg BitVec.toNat h)
      rw [show (0#11).toNat = 0 from rfl] at this
      omega
    have hpack : UnpackedFloat.pack .binary64 (.finite .positive m ((f : Int) - 1075) hm) =
        packComponents .binary64 .positive (BitVec.ofNat 11 f) (BitVec.ofNat 52 m) := by
      simp only [UnpackedFloat.pack, hbias, hover, hlog, Format.mantissaBits, if_false, if_true]
    rw [hpack, unpack_packComponents_normal hmax hmin (by omega), UnpackedFloat.finite.injEq]
    exact ⟨rfl, by omega, by rw [hfield]⟩
  · have hlog : m.log2 + 1 ≠ 53 := by
      have := (Nat.log2_lt hm.ne').mpr (not_le.mp hnormal)
      omega
    have hpack : UnpackedFloat.pack .binary64 (.finite .positive m ((f : Int) - 1075) hm) =
        packComponents .binary64 .positive 0#11 (BitVec.ofNat 52 m) := by
      simp only [UnpackedFloat.pack, hbias, hover, hlog, Format.mantissaBits, if_false]
    rw [hpack, unpack_packComponents_subnormal (by omega), UnpackedFloat.finite.injEq]
    exact ⟨rfl, by omega, by omega⟩

/-! ### Weights -/

variable {w v : Float}

theorem unpack_zero : (0 : Float).toModel.unpack = .zero .positive := rfl

/-- What is behind a weight: a positive mantissa with the positive sign, and an exponent. -/
theorem exists_unpack_of_isWeight (h : isWeight w = true) :
    ∃ m e hm, w.toModel.unpack = .finite .positive m e hm := by
  rw [isWeight, Bool.and_eq_true, decide_eq_true_eq] at h
  obtain ⟨hpos, hfin⟩ := h
  have hcompare : UnpackedFloat.compare (.zero .positive) w.toModel.unpack = some .lt := by
    have hlt : (0 : Float).toModel.lt w.toModel = true :=
      of_decide_eq_true (p := (0 : Float).toModel < w.toModel) hpos
    simpa [Float.Model.lt, UnpackedFloat.lt, unpack_zero] using hlt
  have hfinite : UnpackedFloat.isFinite w.toModel.unpack = true := hfin
  cases hu : w.toModel.unpack with
  | infinity s => rw [hu] at hfinite; cases hfinite
  | notANumber => rw [hu] at hfinite; cases hfinite
  | zero s => rw [hu] at hcompare; cases hcompare
  | finite s m e hm =>
    cases s with
    | positive => exact ⟨m, e, hm, rfl⟩
    | negative => rw [hu] at hcompare; cases hcompare

/-- The sign bit of a weight is not set. -/
theorem isNegative_of_isWeight (h : isWeight w = true) : Decimal.isNegative w = false := by
  obtain ⟨m, e, hm, hu⟩ := exists_unpack_of_isWeight h
  have hsign := (fields_of_unpack hu).1
  have hlt : w.toBits.toNat < 2 ^ 64 := w.toBits.toNat_lt
  change w.toBits.toNat / 2 ^ 63 % 2 = 0 at hsign
  rw [Decimal.isNegative, decide_eq_false_iff_not, Nat.pow_eq]
  omega

theorem isNaN_of_isWeight (h : isWeight w = true) : w.isNaN = false := by
  obtain ⟨m, e, hm, hu⟩ := exists_unpack_of_isWeight h
  change UnpackedFloat.isNaN w.toModel.unpack = false
  rw [hu]
  rfl

theorem isInf_of_isWeight (h : isWeight w = true) : w.isInf = false := by
  obtain ⟨m, e, hm, hu⟩ := exists_unpack_of_isWeight h
  change UnpackedFloat.isInf w.toModel.unpack = false
  rw [hu]
  rfl

theorem beq_eq_compare : (w == v) =
    (UnpackedFloat.compare w.toModel.unpack v.toModel.unpack == some .eq) := rfl

/-- A weight is equal to itself. -/
theorem beq_self_of_isWeight (h : isWeight w = true) : (w == w) = true := by
  obtain ⟨m, e, hm, hu⟩ := exists_unpack_of_isWeight h
  rw [beq_eq_compare, hu]
  simp [UnpackedFloat.compare]

/-- Numbers that are unpacked alike are the same. -/
theorem eq_of_unpack {m : Nat} {e : Int} {hm : 0 < m}
    (hw : w.toModel.unpack = .finite .positive m e hm)
    (hv : v.toModel.unpack = .finite .positive m e hm) : w = v := by
  have hbits : w.toModel.toBits.toBitVec = v.toModel.toBits.toBitVec := toBits_of_unpack hw hv
  have hmodel : w.toModel = v.toModel := by
    cases hw : w.toModel
    cases hv : v.toModel
    rw [hw, hv] at hbits
    congr 1
    exact UInt64.toBitVec_inj.mp hbits
  cases w
  cases v
  congr 1

/-- **A weight that compares equal to a number is that number.** -/
theorem eq_of_beq_of_isWeight (h : isWeight w = true) (he : (w == v) = true) : w = v := by
  obtain ⟨m, e, hm, hu⟩ := exists_unpack_of_isWeight h
  rw [beq_eq_compare, hu, beq_iff_eq] at he
  have hv : v.toModel.unpack = .finite .positive m e hm := by
    cases hv : v.toModel.unpack with
    | infinity s => rw [hv] at he; cases s <;> cases he
    | notANumber => rw [hv] at he; cases he
    | zero s => rw [hv] at he; cases he
    | finite s m' e' hm' =>
      rw [hv] at he
      cases s with
      | negative => cases he
      | positive =>
        simp only [UnpackedFloat.compare, Option.some.injEq, Ordering.then_eq_eq,
          Int.compare_eq_eq, Nat.compare_eq_eq] at he
        obtain ⟨rfl, rfl⟩ := he
        rfl
  exact eq_of_unpack hu hv

end FiniteAutomata
