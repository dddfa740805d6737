import FiniteAutomata.Proofs.Decimal.Rounding

/-! # The shortest decimal lies in the rounding interval

A grid holds a magnitude, its rounding interval and the steps of the grid on one natural scale, so
that the grid points that are tested are the decimals that the interval covers (`hits_iff`). The
steps of seventeen digits are finer than the interval, so one of the two neighbours on that grid is
covered (`exists_best`): the search ends with a covered decimal (`covers_shortest`). -/

namespace FiniteAutomata.Decimal

variable {x : Magnitude} {g k : Int} {n : Nat}

/-- The value of a decimal. -/
def Scaled.value (d : Scaled) : ℚ := d.digits * 10 ^ d.exponent

theorem ten_zpow_pos (k : Int) : (0 : ℚ) < 10 ^ k := zpow_pos (by norm_num) k

/-! ### Grids -/

/-- The factor by which the values on a grid are scaled. -/
def Magnitude.scale (x : Magnitude) (g : Int) : ℚ := 2 ^ (2 - x.exponent).toNat * 10 ^ (-g).toNat

theorem Magnitude.scale_pos (x : Magnitude) (g : Int) : 0 < x.scale g := by
  unfold Magnitude.scale
  positivity

/-- A power with an integer exponent, once its denominator is cleared. -/
theorem zpow_mul_pow_toNat {a : ℚ} (ha : a ≠ 0) (k : Int) :
    a ^ k * a ^ (-k).toNat = a ^ k.toNat := by
  rw [← zpow_natCast, ← zpow_natCast, ← zpow_add₀ ha]
  congr 1
  omega

theorem step_grid (x : Magnitude) (g : Int) : ((x.grid g).step : ℚ) = 10 ^ g * x.scale g := by
  have h := zpow_mul_pow_toNat (by norm_num : (10 : ℚ) ≠ 0) g
  simp only [Magnitude.grid, Magnitude.scale, Nat.pow_eq]
  push_cast
  rw [← h]
  ring

/-- Quarters of the unit on a grid. -/
theorem quarters_grid (x : Magnitude) (g : Int) (a : ℚ) :
    a * (2 ^ (x.exponent - 2).toNat * 10 ^ (-g).toNat) = a / 4 * 2 ^ x.exponent * x.scale g := by
  have h := zpow_mul_pow_toNat (by norm_num : (2 : ℚ) ≠ 0) (x.exponent - 2)
  have hquarter : (2 : ℚ) ^ (x.exponent - 2) = 2 ^ x.exponent / 4 := by
    rw [zpow_sub₀ (by norm_num)]
    norm_num
  rw [Magnitude.scale, ← h, hquarter, neg_sub]
  ring

theorem value_grid (x : Magnitude) (g : Int) : ((x.grid g).value : ℚ) = x.value * x.scale g := by
  simp only [Magnitude.grid, Nat.pow_eq]
  push_cast
  rw [quarters_grid, Magnitude.value]
  ring

theorem low_grid (hx : x.Canonical) (g : Int) :
    ((x.grid g).low : ℚ) = x.low * 2 ^ x.exponent * x.scale g := by
  have hpos := hx.pos
  simp only [Magnitude.grid, Magnitude.low, Nat.pow_eq]
  split_ifs
  · rw [Nat.cast_mul, Nat.cast_sub (by omega)]
    push_cast
    rw [quarters_grid]
    ring
  · rw [Nat.cast_mul, Nat.cast_sub (by omega)]
    push_cast
    rw [quarters_grid]
    ring

theorem high_grid (x : Magnitude) (g : Int) :
    ((x.grid g).high : ℚ) = x.high * 2 ^ x.exponent * x.scale g := by
  simp only [Magnitude.grid, Magnitude.high, Nat.pow_eq]
  push_cast
  rw [quarters_grid]
  ring

/-- **The grid points that round to a number** are those that its interval covers. -/
theorem hits_iff (hx : x.Canonical) : (x.grid g).hits n = true ↔ x.Covers (n * 10 ^ g) := by
  have hscale := x.scale_pos g
  have hunit := two_zpow_pos x.exponent
  obtain ⟨p, hp⟩ : ∃ p, n * (x.grid g).step = p := ⟨_, rfl⟩
  obtain ⟨y, hy⟩ : ∃ y : ℚ, n * 10 ^ g / 2 ^ x.exponent = y := ⟨_, rfl⟩
  have hpoint : (p : ℚ) = y * 2 ^ x.exponent * x.scale g := by
    rw [← hp, ← hy, div_mul_cancel₀ _ hunit.ne']
    push_cast
    rw [step_grid]
    ring
  have hlow : ((x.grid g).low ≤ p ↔ x.low ≤ y) ∧ ((x.grid g).low < p ↔ x.low < y) := by
    rw [← Nat.cast_le (α := ℚ), ← Nat.cast_lt (α := ℚ), low_grid hx, hpoint]
    simp only [mul_le_mul_iff_of_pos_right hscale, mul_le_mul_iff_of_pos_right hunit,
      mul_lt_mul_iff_of_pos_right hscale, mul_lt_mul_iff_of_pos_right hunit, and_self]
  have hhigh : (p ≤ (x.grid g).high ↔ y ≤ x.high) ∧ (p < (x.grid g).high ↔ y < x.high) := by
    rw [← Nat.cast_le (α := ℚ), ← Nat.cast_lt (α := ℚ), high_grid, hpoint]
    simp only [mul_le_mul_iff_of_pos_right hscale, mul_le_mul_iff_of_pos_right hunit,
      mul_lt_mul_iff_of_pos_right hscale, mul_lt_mul_iff_of_pos_right hunit, and_self]
  have hclosed : (x.grid g).closed = true ↔ x.mantissa % 2 = 0 := by
    simp [Magnitude.grid]
  rw [Grid.hits, Magnitude.Covers, hp, hy]
  split_ifs with hc
  · rw [Bool.and_eq_true, decide_eq_true_eq, decide_eq_true_eq, hlow.1, hhigh.1]
    exact ⟨fun h => Or.inr ⟨hclosed.mp hc, h⟩,
      fun h => h.elim (fun h => ⟨h.1.le, h.2.le⟩) And.right⟩
  · rw [Bool.and_eq_true, decide_eq_true_eq, decide_eq_true_eq, hlow.2, hhigh.2]
    exact ⟨Or.inl, fun h => h.resolve_right fun h => hc (hclosed.mpr h.1)⟩

/-! ### Seventeen digits -/

theorem hits_of_best? {G : Grid} (h : G.best? = some n) : G.hits n = true := by
  unfold Grid.best? at h
  dsimp only at h
  split at h
  · next hbelow habove =>
    rw [Option.some.injEq] at h
    rw [← h]
    split_ifs
    · exact hbelow
    · exact habove
  · next hbelow _ => exact Option.some.inj h ▸ hbelow
  · next _ habove => exact Option.some.inj h ▸ habove
  · cases h

/-- If there is no best grid point, both neighbours of the number miss its interval. -/
theorem misses_of_best? {G : Grid} (h : G.best? = none) :
    ¬ G.hits (G.value / G.step) = true ∧ ¬ G.hits (G.value / G.step + 1) = true := by
  unfold Grid.best? at h
  dsimp only at h
  split at h
  · cases h
  · cases h
  · cases h
  · next hbelow habove => exact ⟨by simp [hbelow], by simp [habove]⟩

/-- The neighbours of a number on a grid stand on both sides of it. -/
theorem neighbours_grid (x : Magnitude) (g : Int) :
    ((x.grid g).value / (x.grid g).step : Nat) * (10 : ℚ) ^ g ≤ x.value ∧
      x.value < (((x.grid g).value / (x.grid g).step + 1 : Nat) : ℚ) * 10 ^ g := by
  have hscale := x.scale_pos g
  have hstep : 0 < (x.grid g).step := by
    have h : (0 : ℚ) < (x.grid g).step := by
      rw [step_grid]
      exact mul_pos (ten_zpow_pos g) hscale
    exact_mod_cast h
  have hbelow : (((x.grid g).value / (x.grid g).step * (x.grid g).step : Nat) : ℚ) ≤
      (x.grid g).value := by exact_mod_cast Nat.div_mul_le_self _ _
  have habove : ((x.grid g).value : ℚ) <
      (((x.grid g).value / (x.grid g).step + 1) * (x.grid g).step : Nat) := by
    exact_mod_cast Nat.lt_mul_of_div_lt (Nat.lt_succ_self _) hstep
  rw [Nat.cast_mul, step_grid, value_grid, ← mul_assoc] at hbelow habove
  exact ⟨le_of_mul_le_mul_right hbelow hscale, lt_of_mul_lt_mul_right habove hscale.le⟩

theorem width_eq (x : Magnitude) : x.high - x.low = if x.halvesBelow then 3 / 4 else 1 := by
  unfold Magnitude.high Magnitude.low
  split_ifs <;> ring

/-- **A grid finer than the interval** has a point in it, next to the number. -/
theorem exists_best (hx : x.Canonical)
    (hfine : (10 : ℚ) ^ g < (if x.halvesBelow then 3 / 4 else 1) * 2 ^ x.exponent) :
    ∃ n, (x.grid g).best? = some n := by
  refine Option.ne_none_iff_exists'.mp fun hnone => ?_
  obtain ⟨hbelow, habove⟩ := misses_of_best? hnone
  rw [hits_iff hx, Magnitude.Covers, not_or, not_and_or] at hbelow habove
  have hunit := two_zpow_pos x.exponent
  obtain ⟨h1, h2⟩ := neighbours_grid x g
  obtain ⟨b, hb⟩ : ∃ b, (x.grid g).value / (x.grid g).step = b := ⟨_, rfl⟩
  rw [hb] at hbelow habove h1 h2
  rw [Magnitude.value, ← div_le_iff₀ hunit] at h1
  rw [Magnitude.value, ← lt_div_iff₀ hunit] at h2
  have hlow : x.low < x.mantissa := by
    unfold Magnitude.low
    split_ifs <;> linarith
  have hhigh : (x.mantissa : ℚ) < x.high := by
    unfold Magnitude.high
    linarith
  -- the lower neighbour is not above the start of the interval, the upper one not below its end
  have h3 : (b * 10 ^ g : ℚ) / 2 ^ x.exponent ≤ x.low :=
    not_lt.mp (hbelow.1.resolve_right (not_not.mpr (by linarith)))
  have h4 : x.high ≤ ((b + 1 : Nat) * 10 ^ g : ℚ) / 2 ^ x.exponent :=
    not_lt.mp (habove.1.resolve_left (not_not.mpr (by linarith)))
  rw [div_le_iff₀ hunit] at h3
  rw [le_div_iff₀ hunit] at h4
  rw [← width_eq, sub_mul] at hfine
  push_cast at h4
  linarith

/-- **Seventeen digits suffice**: their grid is finer than the interval. -/
theorem exists_best_seventeen (hx : x.Canonical) (hk : (10 : ℚ) ^ (k - 1) ≤ x.value) :
    ∃ n, (x.grid (k - 17)).best? = some n := by
  refine exists_best hx ?_
  have hunit := two_zpow_pos x.exponent
  have hgrid : (10 : ℚ) ^ (k - 1) = 10 ^ 16 * 10 ^ (k - 17) := by
    rw [← zpow_natCast, ← zpow_add₀ (by norm_num)]
    congr 1
    push_cast
    ring
  rw [hgrid, Magnitude.value] at hk
  cases hb : x.halvesBelow with
  | true =>
    rw [(hx.halves.mp hb).1] at hk
    push_cast at hk
    simp only [if_true]
    linarith
  | false =>
    have hm : (x.mantissa : ℚ) ≤ 2 ^ 53 := by exact_mod_cast hx.mantissa_lt.le
    have hbound := mul_le_mul_of_nonneg_right hm hunit.le
    simp only [Bool.false_eq_true, if_false]
    linarith

/-! ### The search -/

/-- The search over the grids up to the one of seventeen digits ends with a covered decimal. -/
theorem covers_search (hx : x.Canonical) (hk : (10 : ℚ) ^ (k - 1) ≤ x.value) :
    ∀ fuel count : Nat, 0 < fuel → count + fuel = 18 →
      x.Covers (x.search k count fuel).value := by
  intro fuel
  induction fuel with
  | zero => exact fun _ h => absurd h (by decide)
  | succ fuel ih =>
    intro count _ hsum
    rw [Magnitude.search]
    split
    · next n hn => exact (hits_iff hx).mp (hits_of_best? hn)
    · next hnone =>
      rcases Nat.eq_zero_or_pos fuel with rfl | hfuel
      · obtain rfl : count = 17 := by omega
        obtain ⟨n, hn⟩ := exists_best_seventeen hx hk
        exact absurd (hn.symm.trans hnone) (by simp)
      · exact ih (count + 1) hfuel (by omega)

/-- Zeros at the end of the digits move into the exponent. -/
theorem value_strip (d : Scaled) (fuel : Nat) : (d.strip fuel).value = d.value := by
  induction fuel generalizing d with
  | zero => rfl
  | succ fuel ih =>
    rw [Scaled.strip]
    split_ifs with hzero
    · have hdigits : ((d.digits / 10 : Nat) : ℚ) * 10 = d.digits := by
        exact_mod_cast Nat.div_mul_cancel (Nat.dvd_of_mod_eq_zero hzero)
      rw [ih, Scaled.value, Scaled.value, ← hdigits, zpow_add₀ (by norm_num), zpow_one]
      ring
    · rfl

theorem lt_pow_digitCount (n : Nat) : n < 10 ^ digitCount n :=
  (Nat.length_toDigits_le_iff (by norm_num) Nat.length_toDigits_pos).mp le_rfl

theorem pow_digitCount_le (hn : 0 < n) : 10 ^ (digitCount n - 1) ≤ n := by
  by_contra hlt
  have hpos : 0 < digitCount n := Nat.length_toDigits_pos
  rcases Nat.eq_zero_or_pos (digitCount n - 1) with h0 | h1
  · rw [h0] at hlt
    omega
  · have := (Nat.length_toDigits_le_iff (by norm_num) h1).mpr (not_le.mp hlt)
    unfold digitCount at *
    omega

/-- The first of the digits of a fraction is the one of its decimal magnitude. -/
theorem zpow_decimalMagnitude_le {num den : Nat} (hnum : 0 < num) (hden : 0 < den) :
    (10 : ℚ) ^ (decimalMagnitude num den - 1) ≤ num / den := by
  have hdenq : (0 : ℚ) < den := by exact_mod_cast hden
  rw [le_div_iff₀ hdenq]
  unfold decimalMagnitude
  split_ifs with hle
  · have hquotient := pow_digitCount_le (Nat.div_pos hle hden)
    have hpos : 0 < digitCount (num / den) := Nat.length_toDigits_pos
    rw [show ((digitCount (num / den) : Int) - 1) = (digitCount (num / den) - 1 : Nat) by omega,
      zpow_natCast]
    exact_mod_cast (Nat.mul_le_mul_right den hquotient).trans (Nat.div_mul_le_self num den)
  · have hquotient := lt_pow_digitCount ((den - 1) / num)
    have hle : den ≤ 10 ^ digitCount ((den - 1) / num) * num := by
      have := (Nat.div_lt_iff_lt_mul hnum).mp hquotient
      omega
    rw [sub_sub_cancel_left, zpow_neg, zpow_natCast, inv_mul_le_iff₀ (by positivity)]
    exact_mod_cast hle

/-- The value of a magnitude as a fraction of natural numbers. -/
theorem value_eq_div (x : Magnitude) : x.value =
    (x.mantissa * Nat.pow 2 x.exponent.toNat : Nat) / (Nat.pow 2 (-x.exponent).toNat : Nat) := by
  rw [eq_div_iff (by simp), Magnitude.value, Nat.pow_eq, Nat.pow_eq]
  push_cast
  rw [mul_assoc, zpow_mul_pow_toNat (by norm_num)]

/-- **The shortest decimal of a weight** lies in its rounding interval. -/
theorem covers_shortest (hx : x.Canonical) : x.Covers x.shortest.value := by
  have hpos := hx.pos
  rw [Magnitude.shortest, if_neg hpos.ne', value_strip]
  refine covers_search hx ?_ 17 1 (by norm_num) (by norm_num)
  rw [value_eq_div]
  exact zpow_decimalMagnitude_le (Nat.mul_pos hpos (Nat.pow_pos (by norm_num)))
    (Nat.pow_pos (by norm_num))

end FiniteAutomata.Decimal
