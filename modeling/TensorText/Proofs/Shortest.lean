/-
The shortest decimal is near.

Whether a decimal lies in the range of a number is decided in whole numbers; divided by the unit, it
is a comparison of how many quarters the decimal is worth with the ends of the range.  A range is
at least three quarters wide, four of them unless the number is a power of two.  Multiples of a
power of ten that lie closer together than that cannot all miss it, and with seventeen digits they
do: so the search finds a decimal, and what it finds is within two quarters of the number.
-/
import TensorText.Decimal.Shortest
import TensorText.Proofs.Rounding

namespace TensorText.Shortest

namespace Binary

/-- The significand has exactly 53 bits. -/
structure IsNormal (x : Binary) : Prop where
  low : 2 ^ 52 ≤ x.significand
  high : x.significand < 2 ^ 53

/-- The number itself. -/
def toRat (x : Binary) : ℚ := x.significand * 2 ^ x.scale

/-- How many quarters a power of ten is worth. -/
def step (x : Binary) (e : Int) : ℚ := 10 ^ e / 2 ^ (x.scale - 2)

variable {x : Binary} {e : Int} {n : Nat}

theorem unit_pos (x : Binary) (e : Int) : 0 < x.unit e :=
  Nat.mul_pos (Nat.pow_pos (by decide)) (Nat.pow_pos (by decide))

theorem grid_pos (x : Binary) (e : Int) : 0 < x.grid e :=
  Nat.mul_pos (Nat.pow_pos (by decide)) (Nat.pow_pos (by decide))

theorem cast_grid (x : Binary) (e : Int) : (x.grid e : ℚ) = x.step e * x.unit e := by
  have htwo := div_scaled 2 1 1 (x.scale - 2)
  have hten := div_scaled 10 1 1 (-e)
  rw [neg_sub, Nat.one_mul, Nat.one_mul, Nat.cast_one, div_one, Nat.cast_ofNat] at htwo
  rw [neg_neg, Nat.one_mul, Nat.one_mul, Nat.cast_one, div_one, Nat.cast_ofNat, zpow_neg,
    one_div, inv_inv] at hten
  have htwo' : ((Nat.pow 2 (x.scale - 2).toNat : Nat) : ℚ) ≠ 0 := by
    exact_mod_cast (Nat.pow_pos (by decide)).ne'
  have hten' : ((Nat.pow 10 (-e).toNat : Nat) : ℚ) ≠ 0 := by
    exact_mod_cast (Nat.pow_pos (by decide)).ne'
  rw [div_eq_iff htwo'] at htwo
  rw [div_eq_iff hten'] at hten
  rw [grid, unit, step, Nat.cast_mul, Nat.cast_mul, htwo, hten]
  ring

/-- The number has four quarters for each unit of its significand. -/
theorem toRat_eq (x : Binary) : x.toRat = x.value * 2 ^ (x.scale - 2) := by
  rw [toRat, value, zpow_sub₀ (by norm_num)]
  push_cast
  ring

/-- A comparison in whole numbers is one in quarters. -/
theorem mul_unit_le_iff {a : Nat} : a * x.unit e ≤ n * x.grid e ↔ (a : ℚ) ≤ n * x.step e := by
  have hunit : (0 : ℚ) < x.unit e := by exact_mod_cast x.unit_pos e
  rw [← Nat.cast_le (α := ℚ), Nat.cast_mul, Nat.cast_mul, cast_grid, ← mul_assoc,
    mul_le_mul_iff_left₀ hunit]

theorem mul_grid_le_iff {a : Nat} : n * x.grid e ≤ a * x.unit e ↔ (n : ℚ) * x.step e ≤ a := by
  have hunit : (0 : ℚ) < x.unit e := by exact_mod_cast x.unit_pos e
  rw [← Nat.cast_le (α := ℚ), Nat.cast_mul, Nat.cast_mul, cast_grid, ← mul_assoc,
    mul_le_mul_iff_left₀ hunit]

/-- What is in the range is between its ends. -/
theorem bounds_of_holds (h : x.holds e n = true) :
    (x.low : ℚ) ≤ n * x.step e ∧ n * x.step e ≤ (x.high : ℚ) := by
  rw [← mul_unit_le_iff, ← mul_grid_le_iff]
  unfold holds at h
  dsimp only at h
  split at h
  · simpa using h
  · simp only [Bool.and_eq_true, decide_eq_true_eq] at h
    exact ⟨h.1.le, h.2.le⟩

/-- What lies strictly between the ends is in the range. -/
theorem holds_of_lt (hlow : (x.low : ℚ) < n * x.step e) (hhigh : n * x.step e < (x.high : ℚ)) :
    x.holds e n = true := by
  rw [← not_le, ← mul_grid_le_iff, not_le] at hlow
  rw [← not_le, ← mul_unit_le_iff, not_le] at hhigh
  unfold holds
  dsimp only
  split
  · simpa using ⟨hlow.le, hhigh.le⟩
  · simpa using ⟨hlow, hhigh⟩

/-! ### The range -/

theorem high_eq (x : Binary) : (x.high : ℚ) = 4 * x.significand + 2 := by
  rw [high, value]
  push_cast
  rfl

variable (hx : x.IsNormal)

include hx

theorem low_eq : (x.low : ℚ) = 4 * x.significand - (if x.significand = 2 ^ 52 then 1 else 2) := by
  have hlow := hx.low
  have hpow : Nat.pow 2 52 = 2 ^ 52 := rfl
  rw [low, value, hpow, Nat.cast_sub (by split_ifs <;> omega)]
  push_cast
  rfl

/-- What is in the range is within two quarters of the number. -/
theorem near_of_holds (h : x.holds e n = true) :
    |(n : ℚ) * 10 ^ e - x.toRat| ≤ 2 * 2 ^ (x.scale - 2) := by
  obtain ⟨hlow, hhigh⟩ := bounds_of_holds h
  rw [low_eq hx] at hlow
  rw [high_eq] at hhigh
  have hquarter : (0 : ℚ) < 2 ^ (x.scale - 2) := by positivity
  have hn : (n : ℚ) * 10 ^ e = n * x.step e * 2 ^ (x.scale - 2) := by
    rw [mul_assoc, step, div_mul_cancel₀ _ hquarter.ne']
  have hvalue : (x.value : ℚ) = 4 * x.significand := by
    rw [value]
    push_cast
    rfl
  have hle : |(n : ℚ) * x.step e - 4 * x.significand| ≤ 2 := by
    rw [abs_le]
    split_ifs at hlow
    · constructor <;> linarith
    · constructor <;> linarith
  rw [hn, toRat_eq, hvalue, ← sub_mul, abs_mul, abs_of_pos hquarter]
  gcongr

/-- Multiples that lie closer together than the ends of the range do not all miss it. -/
theorem exists_holds (hstep : x.step e < x.high - x.low) :
    x.holds e (x.value * x.unit e / x.grid e) = true ∨
      x.holds e (x.value * x.unit e / x.grid e + 1) = true := by
  have hlow : (x.low : ℚ) < x.value := by
    rw [low_eq hx, value]
    push_cast
    split_ifs <;> linarith
  have hhigh : (x.value : ℚ) < x.high := by
    rw [high_eq, value]
    push_cast
    linarith
  generalize hn : x.value * x.unit e / x.grid e = n
  have hbelow : (n : ℚ) * x.step e ≤ x.value := by
    rw [← mul_grid_le_iff, ← hn]
    exact Nat.div_mul_le_self _ _
  have habove : (x.value : ℚ) < (n + 1 : Nat) * x.step e := by
    rw [← not_le, ← mul_grid_le_iff, not_le, ← hn, Nat.mul_comm _ (x.grid e)]
    exact Nat.lt_mul_div_succ _ (x.grid_pos e)
  have hnext : ((n + 1 : Nat) : ℚ) * x.step e = n * x.step e + x.step e := by
    push_cast
    ring
  rcases lt_or_ge (x.low : ℚ) (n * x.step e) with h | h
  · exact Or.inl (holds_of_lt h (hbelow.trans_lt hhigh))
  · exact Or.inr (holds_of_lt (hlow.trans habove) (by rw [hnext]; linarith))

omit hx

/-! ### The search -/

/-- What is taken for the nearest multiple is in the range. -/
theorem holds_of_nearest? (h : x.nearest? e = some n) : x.holds e n = true := by
  unfold nearest? at h
  dsimp only at h
  generalize x.value * x.unit e / x.grid e = q at h
  cases hlow : x.holds e q with
  | true =>
      cases hhigh : x.holds e (q + 1) with
      | true =>
          simp only [hlow, hhigh, Option.some.injEq] at h
          have heven : q + q % 2 = q ∨ q + q % 2 = q + 1 := by omega
          split_ifs at h
          · rw [← h, hlow]
          · rw [← h, hhigh]
          · rcases heven with hq | hq
            · rw [← h, hq, hlow]
            · rw [← h, hq, hhigh]
      | false =>
          simp only [hlow, hhigh, Option.some.injEq] at h
          rw [← h, hlow]
  | false =>
      cases hhigh : x.holds e (q + 1) with
      | true =>
          simp only [hlow, hhigh, Option.some.injEq] at h
          rw [← h, hhigh]
      | false =>
          simp only [hlow, hhigh] at h
          cases h

theorem nearest?_ne_none (h : x.holds e (x.value * x.unit e / x.grid e) = true ∨
    x.holds e (x.value * x.unit e / x.grid e + 1) = true) : x.nearest? e ≠ none := by
  unfold nearest?
  dsimp only
  rcases h with h | h
  · rw [h]
    cases x.holds e (x.value * x.unit e / x.grid e + 1) <;> simp
  · rw [h]
    cases x.holds e (x.value * x.unit e / x.grid e) <;> simp

/-- The number is at least the power of ten one below its magnitude. -/
theorem pow_magnitude_le (hx : x.IsNormal) : (10 : ℚ) ^ (x.magnitude - 1) ≤ x.toRat := by
  have hgrid := x.grid_pos 0
  have hunit : (0 : ℚ) < x.unit 0 := by exact_mod_cast x.unit_pos 0
  have hvalue : 0 < x.value * x.unit 0 :=
    Nat.mul_pos (Nat.mul_pos (by decide) (lt_of_lt_of_le (by decide) hx.low)) (x.unit_pos 0)
  have hplaces : x.grid 0 < 10 ^ Decimal.width (x.grid 0) := Decimal.lt_pow_width (x.grid 0)
  unfold magnitude
  dsimp only
  generalize Decimal.width (x.grid 0) = places at hplaces ⊢
  have hpow : Nat.pow 10 places = 10 ^ places := rfl
  rw [hpow]
  generalize hw : x.value * x.unit 0 * 10 ^ places / x.grid 0 = w
  have hpos : 0 < w := by
    rw [← hw]
    refine Nat.div_pos ?_ hgrid
    calc x.grid 0 ≤ 1 * 10 ^ places := by omega
      _ ≤ x.value * x.unit 0 * 10 ^ places := Nat.mul_le_mul_right _ hvalue
  have hfloor : (w : ℚ) * x.grid 0 ≤ x.value * x.unit 0 * 10 ^ places := by
    have := Nat.div_mul_le_self (x.value * x.unit 0 * 10 ^ places) (x.grid 0)
    rw [hw] at this
    exact_mod_cast this
  have hwidth : (10 : ℚ) ^ ((Decimal.width w : Int) - 1) ≤ w := by
    have hle : (10 : ℚ) ^ (Decimal.width w - 1) ≤ w := by
      exact_mod_cast Decimal.pow_le_of_pos hpos
    have hwidthPos := Decimal.width_pos w
    rwa [← zpow_natCast, Nat.cast_sub hwidthPos, Nat.cast_one] at hle
  have hscaled : (w : ℚ) ≤ x.toRat * 10 ^ places := by
    have hquarter : (0 : ℚ) < 2 ^ (x.scale - 2) := by positivity
    have hstep : (w : ℚ) / 2 ^ (x.scale - 2) * x.unit 0 ≤ x.value * 10 ^ places * x.unit 0 := by
      rw [cast_grid, step, zpow_zero] at hfloor
      calc (w : ℚ) / 2 ^ (x.scale - 2) * x.unit 0
          = w * (1 / 2 ^ (x.scale - 2) * x.unit 0) := by ring
        _ ≤ x.value * x.unit 0 * 10 ^ places := hfloor
        _ = x.value * 10 ^ places * x.unit 0 := by ring
    have hratio := (mul_le_mul_iff_left₀ hunit).mp hstep
    rw [div_le_iff₀ hquarter] at hratio
    calc (w : ℚ) ≤ x.value * 10 ^ places * 2 ^ (x.scale - 2) := hratio
      _ = x.toRat * 10 ^ places := by rw [toRat_eq]; ring
  have hsplit : (10 : ℚ) ^ ((Decimal.width w : Int) - places - 1) * 10 ^ places =
      10 ^ ((Decimal.width w : Int) - 1) := by
    rw [← zpow_natCast, ← zpow_add₀ (by norm_num)]
    congr 1
    ring
  have hten : (0 : ℚ) < 10 ^ places := by positivity
  rw [← mul_le_mul_iff_left₀ hten, hsplit]
  exact hwidth.trans hscaled

/-- With seventeen digits the multiples lie closer together than the ends of the range. -/
theorem step_lt_range (hx : x.IsNormal) : x.step (x.magnitude - 17) < x.high - x.low := by
  have hquarter : (0 : ℚ) < 2 ^ (x.scale - 2) := by positivity
  have hsplit : (10 : ℚ) ^ (x.magnitude - 17) * 10 ^ 16 = 10 ^ (x.magnitude - 1) := by
    rw [← zpow_natCast, ← zpow_add₀ (by norm_num)]
    congr 1
    push_cast
    ring
  have hstep : x.step (x.magnitude - 17) * 10 ^ 16 ≤ 4 * x.significand := by
    have hle := pow_magnitude_le hx
    rw [toRat_eq, value, ← hsplit, ← div_le_iff₀ hquarter] at hle
    push_cast at hle
    rwa [step, div_mul_eq_mul_div]
  have hhigh : (x.significand : ℚ) < 2 ^ 53 := by exact_mod_cast hx.high
  rw [high_eq, low_eq hx]
  split_ifs with hpower
  · rw [hpower] at hstep ⊢
    norm_num at hstep ⊢
    linarith
  · norm_num at hstep ⊢
    linarith

end Binary

/-- Zeros at the end say nothing. -/
theorem stripZeros_value (digits : Nat) (exponent : Int) :
    ((stripZeros digits exponent).1 : ℚ) * 10 ^ (stripZeros digits exponent).2 =
      digits * 10 ^ exponent := by
  fun_induction stripZeros digits exponent with
  | case1 digits exponent h ih =>
      have hdigits : (digits : ℚ) = (digits / 10 : Nat) * 10 := by
        exact_mod_cast (Nat.div_mul_cancel (Nat.dvd_of_mod_eq_zero h.2)).symm
      rw [ih, zpow_add₀ (by norm_num), zpow_one, hdigits]
      ring
  | case2 digits exponent h => rfl

/-- **The search finds a decimal within half a unit of the last place.** -/
theorem digits_near {x : Binary} (hx : x.IsNormal) :
    |((digits x).1 : ℚ) * 10 ^ (digits x).2 - x.toRat| ≤ 2 * 2 ^ (x.scale - 2) := by
  unfold digits
  dsimp only
  cases hfound : (List.range 17).findSome? fun (n : Nat) =>
      (x.nearest? (x.magnitude - (n + 1))).map fun digits => (digits, x.magnitude - (n + 1)) with
  | none =>
      exfalso
      have hnone := List.findSome?_eq_none_iff.mp hfound 16 (by decide)
      have hsome := Binary.nearest?_ne_none (Binary.exists_holds hx (Binary.step_lt_range hx))
      rw [Option.map_eq_none_iff] at hnone
      exact hsome hnone
  | some found =>
      obtain ⟨n, -, hn⟩ := List.exists_of_findSome?_eq_some hfound
      obtain ⟨found, hnearest, rfl⟩ := Option.map_eq_some_iff.mp hn
      rw [stripZeros_value]
      exact Binary.near_of_holds hx (Binary.holds_of_nearest? hnearest)

/-! ### Numbers of 24 bits -/

namespace Binary

variable {m : Nat} {k : Int}

theorem isNormal_normalize (hpos : 0 < m) (hlt : m < 2 ^ 24) (k : Int) :
    (normalize m k).IsNormal := by
  have hlog : m.log2 < 24 := (Nat.log2_lt hpos.ne').mpr hlt
  have hpow : 2 ^ m.log2 * 2 ^ (52 - m.log2) = 2 ^ 52 := by
    rw [← Nat.pow_add]
    congr 1
    omega
  constructor
  · calc 2 ^ 52 = 2 ^ m.log2 * 2 ^ (52 - m.log2) := hpow.symm
      _ ≤ m * 2 ^ (52 - m.log2) := Nat.mul_le_mul_right _ (Nat.log2_self_le hpos.ne')
  · calc m * 2 ^ (52 - m.log2) < 2 ^ (m.log2 + 1) * 2 ^ (52 - m.log2) :=
          Nat.mul_lt_mul_of_pos_right Nat.lt_log2_self (Nat.pow_pos (by decide))
      _ = 2 ^ 53 := by rw [Nat.pow_succ, Nat.mul_right_comm, hpow, ← Nat.pow_succ]

theorem toRat_normalize (m : Nat) (k : Int) : (normalize m k).toRat = m * 2 ^ k := by
  have hpow : Nat.pow 2 (52 - m.log2) = 2 ^ (52 - m.log2) := rfl
  simp only [toRat, normalize, hpow]
  rw [zpow_sub₀ (by norm_num), zpow_natCast]
  push_cast
  field_simp

theorem scale_normalize_le (hpos : 0 < m) (hlt : m < 2 ^ 24) (k : Int) :
    (normalize m k).scale ≤ k - 29 := by
  have hlog : m.log2 < 24 := (Nat.log2_lt hpos.ne').mpr hlt
  simp only [normalize]
  omega

end Binary

/-- **For a number of 24 bits the decimal is much nearer than its next step.** -/
theorem digits_normalize_near {m : Nat} (hpos : 0 < m) (hlt : m < 2 ^ 24) (k : Int) :
    |((digits (.normalize m k)).1 : ℚ) * 10 ^ (digits (.normalize m k)).2 - m * 2 ^ k| <
      1 / 4 * 2 ^ k := by
  have hk : (0 : ℚ) < 2 ^ k := by positivity
  have hnear := digits_near (Binary.isNormal_normalize hpos hlt k)
  rw [Binary.toRat_normalize] at hnear
  have hstep : (2 : ℚ) ^ ((Binary.normalize m k).scale - 2) ≤ 2 ^ (k - 31) :=
    zpow_le_zpow_right₀ (by norm_num) (by have := Binary.scale_normalize_le hpos hlt k; omega)
  have hsmall : 2 * (2 : ℚ) ^ (k - 31) < 1 / 4 * 2 ^ k := by
    rw [zpow_sub₀ (by norm_num), mul_div_assoc', div_lt_iff₀ (by positivity)]
    norm_num
    linarith
  calc |((digits (.normalize m k)).1 : ℚ) * 10 ^ (digits (.normalize m k)).2 - m * 2 ^ k|
      ≤ 2 * 2 ^ ((Binary.normalize m k).scale - 2) := hnear
    _ ≤ 2 * 2 ^ (k - 31) := by gcongr
    _ < 1 / 4 * 2 ^ k := hsmall

end TensorText.Shortest
