/-
Numbers of 32 bits that are nearest.

The magnitudes of 32 bits stand in the order of their bits, and each is one step above the one
before it.  So they can be counted, and a number is nearest if neither neighbour is nearer; of two
nearest ones the count of one is even, and with it the significand.  A ratio is rounded in its
binade, where the steps are all the same.  Rounding up to the end of the binade carries into the
next one, and that is the next magnitude all the same.

Counting does not end with the largest finite magnitude.  Infinity has the place that comes next,
which would be that of `2 ^ 128`, and what is nearest to this place or to one behind it is infinite.
-/
import Mathlib
import TensorText.Binary32
import TensorText.Proofs.Numerals

namespace TensorText

/-! ### Whole numbers -/

/-- A power of the base can stand above the line or below it. -/
theorem div_scaled (base num den : Nat) (s : Int) :
    ((num * Nat.pow base (-s).toNat : Nat) : ℚ) / (den * Nat.pow base s.toNat : Nat) =
      (num : ℚ) / den / base ^ s := by
  have hpow : ∀ n, Nat.pow base n = base ^ n := fun _ => rfl
  rcases le_total 0 s with hs | hs
  · obtain ⟨n, rfl⟩ := Int.eq_ofNat_of_zero_le hs
    have hzero : (-(n : Int)).toNat = 0 := by omega
    rw [hzero, Int.toNat_natCast, hpow, hpow, zpow_natCast]
    push_cast
    rw [pow_zero, mul_one, div_div]
  · obtain ⟨n, hn⟩ := Int.eq_ofNat_of_zero_le (show 0 ≤ -s by omega)
    obtain rfl : s = -(n : Int) := by omega
    have hzero : (-(n : Int)).toNat = 0 := by omega
    rw [neg_neg, Int.toNat_natCast, hzero, hpow, hpow, zpow_neg, zpow_natCast]
    push_cast
    rw [pow_zero, mul_one, div_inv_eq_mul, div_mul_eq_mul_div]

/-- A whole number that is rounded to is at most one half away, and even if it is one half. -/
theorem roundHalfEven_spec (num : Nat) {den : Nat} (hden : 0 < den) :
    |(num : ℚ) / den - roundHalfEven num den| ≤ 1 / 2 ∧
      (|(num : ℚ) / den - roundHalfEven num den| = 1 / 2 → roundHalfEven num den % 2 = 0) := by
  have hden' : (0 : ℚ) < den := by exact_mod_cast hden
  have hmod := Nat.div_add_mod num den
  have hlt := Nat.mod_lt num hden
  have hratio : (num : ℚ) / den = (num / den : Nat) + ((num % den : Nat) : ℚ) / den := by
    rw [div_eq_iff hden'.ne', add_mul, div_mul_cancel₀ _ hden'.ne']
    exact_mod_cast (by rw [Nat.mul_comm]; exact hmod.symm : num = num / den * den + num % den)
  unfold roundHalfEven
  dsimp only
  generalize num / den = q at hratio
  generalize num % den = r at hratio hlt
  rw [hratio]
  have hr : (0 : ℚ) ≤ (r : ℚ) / den := by positivity
  split_ifs with hbelow habove
  · have hhalf : (r : ℚ) / den < 1 / 2 := by
      rw [div_lt_iff₀ hden']
      have : (2 * r : ℚ) < den := by exact_mod_cast hbelow
      linarith
    rw [add_sub_cancel_left, abs_of_nonneg hr]
    exact ⟨hhalf.le, fun h => absurd h hhalf.ne⟩
  · have hhalf : 1 / 2 < (r : ℚ) / den := by
      rw [lt_div_iff₀ hden']
      have : (den : ℚ) < 2 * r := by exact_mod_cast habove
      linarith
    have hone : (r : ℚ) / den < 1 := by
      rw [div_lt_one hden']
      exact_mod_cast hlt
    have habs : |(q : ℚ) + r / den - (q + 1 : Nat)| = 1 - r / den := by
      push_cast
      rw [abs_sub_comm, abs_of_pos (by linarith)]
      ring
    rw [habs]
    exact ⟨by linarith, fun h => by linarith⟩
  · have hhalf : (r : ℚ) / den = 1 / 2 := by
      rw [div_eq_iff hden'.ne']
      have : (2 * r : ℚ) = den := by exact_mod_cast (by omega : 2 * r = den)
      linarith
    rcases Nat.mod_two_eq_zero_or_one q with hq | hq
    · rw [hq, Nat.add_zero, hhalf, add_sub_cancel_left]
      exact ⟨by norm_num, fun _ => hq⟩
    · rw [hq, hhalf]
      push_cast
      rw [add_sub_add_left_eq_sub]
      exact ⟨by norm_num, fun _ => by omega⟩

/-! ### The nearest of a row of numbers -/

section Nearest

variable {f : Nat → ℚ} {x : ℚ} {n n' : Nat}

/-- No member of the row is nearer, and if another is as near, the place of this one is even. -/
structure IsNearest (f : Nat → ℚ) (x : ℚ) (n : Nat) : Prop where
  nearest : ∀ k, |x - f n| ≤ |x - f k|
  even : ∀ k, k ≠ n → |x - f n| = |x - f k| → n % 2 = 0

/-- In an ascending row it is enough to look at the neighbours. -/
theorem isNearest_of_neighbours (hf : StrictMono f)
    (habove : x - f n < f (n + 1) - x ∨ x - f n = f (n + 1) - x ∧ n % 2 = 0)
    (hbelow : ∀ k, k + 1 = n → f n - x < x - f k ∨ f n - x = x - f k ∧ n % 2 = 0) :
    IsNearest f x n := by
  -- How far any other member is away, by the neighbour that lies on its side.
  have hother : ∀ k, k ≠ n → |x - f n| < |x - f k| ∨ |x - f n| ≤ |x - f k| ∧ n % 2 = 0 := by
    intro k hk
    rcases Nat.lt_or_gt_of_ne hk with hlt | hgt
    · obtain ⟨p, rfl⟩ : ∃ p, n = p + 1 := ⟨n - 1, by omega⟩
      have hstep : f p < f (p + 1) := hf (Nat.lt_succ_self p)
      have hle : f k ≤ f p := hf.monotone (Nat.le_of_lt_succ hlt)
      have hfar : x - f k ≤ |x - f k| := le_abs_self _
      rcases hbelow p rfl with h | ⟨h, heven⟩
      · exact Or.inl (abs_lt.mpr ⟨by linarith, by linarith⟩)
      · exact Or.inr ⟨abs_le.mpr ⟨by linarith, by linarith⟩, heven⟩
    · have hstep : f n < f (n + 1) := hf (Nat.lt_succ_self n)
      have hle : f (n + 1) ≤ f k := hf.monotone hgt
      have hfar : f k - x ≤ |x - f k| := by
        rw [abs_sub_comm]
        exact le_abs_self _
      rcases habove with h | ⟨h, heven⟩
      · exact Or.inl (abs_lt.mpr ⟨by linarith, by linarith⟩)
      · exact Or.inr ⟨abs_le.mpr ⟨by linarith, by linarith⟩, heven⟩
  constructor
  · intro k
    by_cases hk : k = n
    · rw [hk]
    · rcases hother k hk with h | ⟨h, -⟩
      · exact h.le
      · exact h
  · intro k hk htie
    rcases hother k hk with h | ⟨-, heven⟩
    · exact absurd htie h.ne
    · exact heven

/-- Between two places that are both even lies a third, which would be nearer. -/
theorem IsNearest.le (hf : StrictMono f) (h : IsNearest f x n) (h' : IsNearest f x n') :
    n' ≤ n := by
  by_contra hle
  have hlt : n < n' := not_le.mp hle
  have htie : |x - f n| = |x - f n'| := le_antisymm (h.nearest n') (h'.nearest n)
  have heven := h.even n' hlt.ne' htie
  have heven' := h'.even n hlt.ne htie.symm
  have hlow : f n < f (n + 1) := hf (Nat.lt_succ_self n)
  have hhigh : f (n + 1) < f n' := hf (by omega)
  have hmiddle : x - f n = f n' - x := by
    rcases abs_eq_abs.mp htie with heq | heq
    · linarith
    · linarith
  have hnear : |x - f (n + 1)| < |x - f n| := by
    have hleft : |x - f n| = x - f n := abs_of_pos (by linarith)
    rw [hleft]
    exact abs_lt.mpr ⟨by linarith, by linarith⟩
  exact absurd (h.nearest (n + 1)) (not_le.mpr hnear)

/-- **There is one nearest.** -/
theorem IsNearest.unique (hf : StrictMono f) (h : IsNearest f x n) (h' : IsNearest f x n') :
    n = n' :=
  Nat.le_antisymm (h'.le hf h) (h.le hf h')

end Nearest

namespace Binary32

/-! ### Binades -/

/-- Without its power of two a ratio lies between one half and two. -/
theorem ratio_bounds {num den : Nat} (hnum : 0 < num) (hden : 0 < den) :
    (2 : ℚ) ^ ((num.log2 : Int) - den.log2 - 1) < num / den ∧
      (num : ℚ) / den < 2 ^ ((num.log2 : Int) - den.log2 + 1) := by
  have hpos : (0 : ℚ) < den := by exact_mod_cast hden
  have hnumLow : (2 : ℚ) ^ num.log2 ≤ num := by exact_mod_cast Nat.log2_self_le hnum.ne'
  have hnumHigh : (num : ℚ) < 2 ^ (num.log2 + 1) := by exact_mod_cast Nat.lt_log2_self
  have hdenLow : (2 : ℚ) ^ den.log2 ≤ den := by exact_mod_cast Nat.log2_self_le hden.ne'
  have hdenHigh : (den : ℚ) < 2 ^ (den.log2 + 1) := by exact_mod_cast Nat.lt_log2_self
  constructor
  · have hsplit :
        (2 : ℚ) ^ ((num.log2 : Int) - den.log2 - 1) * 2 ^ (den.log2 + 1) = 2 ^ num.log2 := by
      rw [← zpow_natCast, ← zpow_natCast, ← zpow_add₀ (by norm_num)]
      congr 1
      push_cast
      ring
    rw [lt_div_iff₀ hpos]
    calc (2 : ℚ) ^ ((num.log2 : Int) - den.log2 - 1) * den
        < 2 ^ ((num.log2 : Int) - den.log2 - 1) * 2 ^ (den.log2 + 1) := by gcongr
      _ = 2 ^ num.log2 := hsplit
      _ ≤ num := hnumLow
  · have hsplit :
        (2 : ℚ) ^ ((num.log2 : Int) - den.log2 + 1) * 2 ^ den.log2 = 2 ^ (num.log2 + 1) := by
      rw [← zpow_natCast, ← zpow_natCast, ← zpow_add₀ (by norm_num)]
      congr 1
      push_cast
      ring
    rw [div_lt_iff₀ hpos]
    calc (num : ℚ) < 2 ^ (num.log2 + 1) := hnumHigh
      _ = 2 ^ ((num.log2 : Int) - den.log2 + 1) * 2 ^ den.log2 := hsplit.symm
      _ ≤ 2 ^ ((num.log2 : Int) - den.log2 + 1) * den := by gcongr

theorem binade_spec {num den : Nat} (hnum : 0 < num) (hden : 0 < den) :
    (2 : ℚ) ^ binade num den ≤ num / den ∧ (num : ℚ) / den < 2 ^ (binade num den + 1) := by
  obtain ⟨hlow, hhigh⟩ := ratio_bounds hnum hden
  unfold binade
  generalize (num.log2 : Int) - den.log2 = k at hlow hhigh ⊢
  have hscaled : num * Nat.pow 2 (-k).toNat < den * Nat.pow 2 k.toNat ↔
      (num : ℚ) / den < 2 ^ k := by
    have hpos : (0 : ℚ) < (den * Nat.pow 2 k.toNat : Nat) := by
      exact_mod_cast Nat.mul_pos hden (Nat.pow_pos (by decide))
    have hdiv := div_scaled 2 num den k
    rw [Nat.cast_ofNat] at hdiv
    rw [← div_lt_one (by positivity : (0 : ℚ) < 2 ^ k), ← hdiv, div_lt_one hpos, Nat.cast_lt]
  simp only [hscaled]
  split_ifs with h
  · exact ⟨hlow.le, by simpa using h⟩
  · exact ⟨not_lt.mp h, hhigh⟩

/-! ### Magnitudes in their order -/

/-- How far above a magnitude the next one is, given its bits. -/
def gap (n : Nat) : ℚ := 2 ^ (((max (n / 2 ^ 23) 1 : Nat) : Int) - 150)

/-- The magnitude with these bits, as if larger exponents were for finite numbers too. -/
def nth (n : Nat) : ℚ :=
  ((if n / 2 ^ 23 = 0 then n % 2 ^ 23 else 2 ^ 23 + n % 2 ^ 23 : Nat) : ℚ) * gap n

theorem gap_pos (n : Nat) : 0 < gap n := by
  unfold gap
  positivity

/-- **Each magnitude is one step above the one before it**, also where the exponent changes. -/
theorem nth_succ (n : Nat) : nth (n + 1) = nth n + gap n := by
  have hsplit := Nat.div_add_mod n (2 ^ 23)
  have hmod := Nat.mod_lt n (show 0 < 2 ^ 23 by decide)
  unfold nth gap
  generalize n / 2 ^ 23 = e at hsplit
  generalize n % 2 ^ 23 = m at hsplit hmod
  by_cases hcarry : m + 1 = 2 ^ 23
  · have hdiv : (n + 1) / 2 ^ 23 = e + 1 := by omega
    have hzero : (n + 1) % 2 ^ 23 = 0 := by omega
    obtain rfl : m = 2 ^ 23 - 1 := by omega
    rw [hdiv, hzero]
    by_cases he : e = 0
    · norm_num [he]
    · have hexp : (((max (e + 1) 1 : Nat) : Int) - 150) = ((max e 1 : Nat) : Int) - 150 + 1 := by
        omega
      rw [hexp, zpow_add_one₀ (by norm_num), if_neg (by omega), if_neg he]
      norm_num
      ring
  · have hdiv : (n + 1) / 2 ^ 23 = e := by omega
    have hnext : (n + 1) % 2 ^ 23 = m + 1 := by omega
    rw [hdiv, hnext]
    split_ifs
    · push_cast
      ring
    · push_cast
      ring

theorem strictMono_nth : StrictMono nth := by
  refine strictMono_nat_of_lt_succ fun n => ?_
  rw [nth_succ]
  exact lt_add_of_pos_right _ (gap_pos n)

/-- A step is at most twice the one before it. -/
theorem gap_succ_le (n : Nat) : gap (n + 1) ≤ 2 * gap n := by
  unfold gap
  rw [mul_comm, ← zpow_add_one₀ (by norm_num : (2 : ℚ) ≠ 0)]
  exact zpow_le_zpow_right₀ (by norm_num) (by omega)

/-- A significand counted on from its scale, be it full, at the lowest scale, or one that carries
into the next exponent. -/
theorem nth_eq {m : Nat} {s : Int} (hs : -149 ≤ s) (hm : m ≤ 2 ^ 24)
    (hfull : 2 ^ 23 ≤ m ∨ s = -149) : nth ((s + 149).toNat * 2 ^ 23 + m) = m * 2 ^ s := by
  obtain ⟨e, rfl⟩ : ∃ e : Nat, s = e - 149 := ⟨(s + 149).toNat, by omega⟩
  have hexp : ((e : Int) - 149 + 149).toNat = e := by omega
  rw [hexp]
  unfold nth gap
  rcases Nat.lt_or_ge m (2 ^ 23) with hlt | hge
  · obtain rfl : e = 0 := by omega
    have hdiv : (0 * 2 ^ 23 + m) / 2 ^ 23 = 0 := by omega
    have hmod : (0 * 2 ^ 23 + m) % 2 ^ 23 = m := by omega
    rw [hdiv, hmod, if_pos rfl]
    norm_num
  · rcases Nat.lt_or_ge m (2 ^ 24) with hlt | hcarry
    · have hdiv : (e * 2 ^ 23 + m) / 2 ^ 23 = e + 1 := by omega
      have hmod : 2 ^ 23 + (e * 2 ^ 23 + m) % 2 ^ 23 = m := by omega
      have hscale : (((max (e + 1) 1 : Nat) : Int) - 150) = e - 149 := by omega
      rw [hdiv, if_neg (by omega), hmod, hscale]
    · obtain rfl : m = 2 ^ 24 := by omega
      have hdiv : (e * 2 ^ 23 + 2 ^ 24) / 2 ^ 23 = e + 2 := by omega
      have hmod : (e * 2 ^ 23 + 2 ^ 24) % 2 ^ 23 = 0 := by omega
      have hscale : (((max (e + 2) 1 : Nat) : Int) - 150) = (e : Int) - 149 + 1 := by omega
      rw [hdiv, if_neg (by omega), hmod, hscale, zpow_add_one₀ (by norm_num)]
      norm_num
      ring

/-! ### Ratios -/

variable {num den : Nat}

/-- A ratio at its scale has no more than 24 bits, and no fewer except at the lowest scale. -/
theorem scaled_bounds (hnum : 0 < num) (hden : 0 < den) {s : Int}
    (hs : s = max (-149) (binade num den - 23)) :
    (num : ℚ) / den / 2 ^ s < 2 ^ 24 ∧ ((2 : ℚ) ^ 23 ≤ num / den / 2 ^ s ∨ s = -149) := by
  obtain ⟨hlow, hhigh⟩ := binade_spec hnum hden
  have hpos : (0 : ℚ) < 2 ^ s := by positivity
  rw [div_lt_iff₀ hpos, le_div_iff₀ hpos, ← zpow_natCast, ← zpow_natCast,
    ← zpow_add₀ (by norm_num), ← zpow_add₀ (by norm_num)]
  constructor
  · exact hhigh.trans_le (zpow_le_zpow_right₀ (by norm_num) (by push_cast; omega))
  · rcases le_or_gt (binade num den - 23) (-149) with h | h
    · exact Or.inr (by omega)
    · exact Or.inl ((zpow_le_zpow_right₀ (by norm_num) (by push_cast; omega)).trans hlow)

/-- What is rounded to a whole number at its scale is rounded to the nearest magnitude. -/
theorem isNearest_scaled {m : Nat} {s : Int} {r : ℚ} (hlow : -149 ≤ s) (hlt : r < 2 ^ 24)
    (hfull : 2 ^ 23 ≤ r ∨ s = -149) (hhalf : |r - m| ≤ 1 / 2)
    (htie : |r - m| = 1 / 2 → m % 2 = 0) :
    IsNearest nth (r * 2 ^ s) ((s + 149).toNat * 2 ^ 23 + m) := by
  obtain ⟨hleft, hright⟩ := abs_le.mp hhalf
  have hscale : (0 : ℚ) < 2 ^ s := by positivity
  have hm : m ≤ 2 ^ 24 := by
    have : (m : ℚ) < 2 ^ 24 + 1 := by linarith
    exact Nat.le_of_lt_succ (by exact_mod_cast this)
  have hm' : 2 ^ 23 ≤ m ∨ s = -149 := by
    refine hfull.imp_left fun hr => ?_
    have : (2 : ℚ) ^ 23 < m + 1 := by linarith
    exact Nat.le_of_lt_succ (by exact_mod_cast this)
  have heven (h : |r - m| = 1 / 2) : ((s + 149).toNat * 2 ^ 23 + m) % 2 = 0 := by
    have := htie h
    omega
  have hvalue := nth_eq hlow hm hm'
  refine isNearest_of_neighbours strictMono_nth ?_ fun k hk => ?_
  · rcases Nat.lt_or_ge m (2 ^ 24) with hnext | hcarry
    · have habove : nth ((s + 149).toNat * 2 ^ 23 + m + 1) = (m + 1 : Nat) * 2 ^ s := by
        rw [Nat.add_assoc]
        exact nth_eq hlow hnext (hm'.imp_left Nat.le_succ_of_le)
      rw [hvalue, habove, ← sub_mul, ← sub_mul, mul_lt_mul_iff_left₀ hscale,
        mul_left_inj' hscale.ne']
      push_cast
      rcases hright.lt_or_eq with h | h
      · exact Or.inl (by linarith)
      · refine Or.inr ⟨by linarith, heven ?_⟩
        rw [h]
        norm_num
    · have hle : r * 2 ^ s < m * 2 ^ s := by
        have hr : r < m := hlt.trans_le (by exact_mod_cast hcarry)
        gcongr
      have hstep := strictMono_nth (Nat.lt_succ_self ((s + 149).toNat * 2 ^ 23 + m))
      rw [hvalue] at hstep ⊢
      exact Or.inl (by linarith)
  · by_cases hinner : s = -149 ∨ 2 ^ 23 < m
    · obtain ⟨p, rfl⟩ : ∃ p, m = p + 1 := ⟨m - 1, by omega⟩
      obtain rfl : k = (s + 149).toNat * 2 ^ 23 + p := by omega
      have hbelow : nth ((s + 149).toNat * 2 ^ 23 + p) = p * 2 ^ s :=
        nth_eq hlow (Nat.le_of_succ_le hm) (by omega)
      rw [hvalue, hbelow, ← sub_mul, ← sub_mul, mul_lt_mul_iff_left₀ hscale,
        mul_left_inj' hscale.ne']
      push_cast at hleft heven ⊢
      rcases hleft.lt_or_eq with h | h
      · exact Or.inl (by linarith)
      · refine Or.inr ⟨by linarith, heven ?_⟩
        rw [← h]
        norm_num
    · have hle : m * 2 ^ s ≤ r * 2 ^ s := by
        have hr : (m : ℚ) ≤ r := by
          rcases hfull with h | h
          · obtain rfl : m = 2 ^ 23 := by omega
            exact_mod_cast h
          · omega
        gcongr
      have hstep : nth k < nth (k + 1) := strictMono_nth (Nat.lt_succ_self k)
      rw [hk, hvalue] at hstep
      rw [hvalue]
      exact Or.inl (by linarith)

/-- **A ratio is rounded to the nearest magnitude.** -/
theorem exists_isNearest_ofRatio (negative : Bool) (hnum : 0 < num) (hden : 0 < den) :
    ∃ n, IsNearest nth ((num : ℚ) / den) n ∧
      ofRatio negative num den = ofMagnitude negative (min n (255 * 2 ^ 23)) := by
  obtain ⟨s, hs⟩ : ∃ s, s = max (-149) (binade num den - 23) := ⟨_, rfl⟩
  have hpow : ∀ n, Nat.pow 2 n = 2 ^ n := fun _ => rfl
  have hlow : -149 ≤ s := by omega
  have hscale : (0 : ℚ) < 2 ^ s := by positivity
  have hden' : 0 < den * Nat.pow 2 s.toNat := Nat.mul_pos hden (Nat.pow_pos (by decide))
  obtain ⟨hhalf, htie⟩ := roundHalfEven_spec (num * Nat.pow 2 (-s).toNat) hden'
  obtain ⟨hlt, hfull⟩ := scaled_bounds hnum hden hs
  rw [div_scaled, Nat.cast_ofNat] at hhalf htie
  refine ⟨(s + 149).toNat * 2 ^ 23 +
    roundHalfEven (num * Nat.pow 2 (-s).toNat) (den * Nat.pow 2 s.toNat), ?_, ?_⟩
  · have hratio : (num : ℚ) / den = num / den / 2 ^ s * 2 ^ s := (div_mul_cancel₀ _ hscale.ne').symm
    rw [hratio]
    generalize roundHalfEven (num * Nat.pow 2 (-s).toNat) (den * Nat.pow 2 s.toNat) = m
      at hhalf htie
    generalize (num : ℚ) / den / 2 ^ s = r at hhalf htie hlt hfull
    exact isNearest_scaled hlow hlt hfull hhalf htie
  · unfold ofRatio
    simp only [← hs, hpow]

/-! ### Decimals -/

theorem nth_zero : nth 0 = 0 := by
  norm_num [nth]

/-- Where infinity stands, between the largest finite number and the next one. -/
theorem nth_infinity : nth (255 * 2 ^ 23) = 2 ^ 128 := by
  have h := nth_eq (m := 2 ^ 23) (s := 105) (by decide) (by decide) (Or.inl le_rfl)
  have hplace : ((105 : Int) + 149).toNat * 2 ^ 23 + 2 ^ 23 = 255 * 2 ^ 23 := by decide
  rw [hplace] at h
  rw [h]
  norm_num

/-- The largest finite number. -/
theorem nth_largest : nth (255 * 2 ^ 23 - 1) = 2 ^ 128 - 2 ^ 104 := by
  have h := nth_eq (m := 2 ^ 24 - 1) (s := 104) (by decide) (by decide) (Or.inl (by decide))
  have hplace : ((104 : Int) + 149).toNat * 2 ^ 23 + (2 ^ 24 - 1) = 255 * 2 ^ 23 - 1 := by decide
  rw [hplace] at h
  rw [h]
  norm_num

/-- **From halfway between the largest finite number and the next place on, no finite number is
nearest.** -/
theorem infinity_le_iff {x : ℚ} {n : Nat} (h : IsNearest nth x n) :
    255 * 2 ^ 23 ≤ n ↔ 2 ^ 128 - 2 ^ 103 ≤ x := by
  have hlargest := h.nearest (255 * 2 ^ 23 - 1)
  have hinfinity := h.nearest (255 * 2 ^ 23)
  rw [nth_largest] at hlargest
  rw [nth_infinity] at hinfinity
  constructor
  · intro hn
    by_contra hx
    have hplace : nth (255 * 2 ^ 23) ≤ nth n := strictMono_nth.monotone hn
    rw [nth_infinity] at hplace
    have hfar : nth n - x ≤ |x - nth n| := by
      rw [abs_sub_comm]
      exact le_abs_self _
    refine absurd hlargest (not_le.mpr (lt_of_lt_of_le (abs_lt.mpr ⟨?_, ?_⟩) hfar))
    · linarith
    · linarith
  · intro hx
    by_contra hn
    have hplace : nth n ≤ nth (255 * 2 ^ 23 - 1) := strictMono_nth.monotone (by omega)
    rw [nth_largest] at hplace
    have hfar : x - nth n ≤ |x - nth n| := le_abs_self _
    have hnear : |x - 2 ^ 128| ≤ |x - nth n| := by
      refine abs_le.mpr ⟨?_, ?_⟩
      · linarith
      · linarith
    have htie : |x - nth n| = |x - 2 ^ 128| := le_antisymm hinfinity hnear
    have hsame : nth n = nth (255 * 2 ^ 23 - 1) := by
      rw [nth_largest]
      refine le_antisymm hplace ?_
      rcases abs_cases (x - 2 ^ 128) with ⟨habs, -⟩ | ⟨habs, -⟩
      · linarith
      · linarith
    have heven := h.even (255 * 2 ^ 23) (by omega) (by rw [nth_infinity, htie])
    rw [strictMono_nth.injective hsame] at heven
    exact absurd heven (by decide)

/-- What is less than half of the smallest magnitude is nearest to none. -/
theorem isNearest_zero {x : ℚ} (hlt : x < 2 ^ (-150 : Int)) : IsNearest nth x 0 := by
  have hone : nth (0 + 1) = 2 ^ (-150 : Int) + 2 ^ (-150 : Int) := by
    rw [nth_succ, nth_zero]
    norm_num [gap]
  refine isNearest_of_neighbours strictMono_nth (Or.inl ?_) fun k hk => absurd hk k.succ_ne_zero
  rw [hone, nth_zero]
  linarith

/-- A decimal as the ratio that is rounded for it. -/
theorem ratio_eq_magnitude (d : Decimal) : ((d.digits * Nat.pow 10 d.exponent.toNat : Nat) : ℚ) /
    (Nat.pow 10 (-d.exponent).toNat : Nat) = d.magnitude := by
  have hdiv := div_scaled 10 d.digits 1 (-d.exponent)
  rw [neg_neg, Nat.one_mul, Nat.cast_one, div_one, Nat.cast_ofNat, zpow_neg,
    div_inv_eq_mul] at hdiv
  exact hdiv

/-- **A decimal is read to the nearest magnitude**, or to infinity if that is not finite. -/
theorem exists_isNearest_ofDecimal (d : Decimal) : ∃ n, IsNearest nth d.magnitude n ∧
    ofDecimal d = ofMagnitude d.negative (min n (255 * 2 ^ 23)) := by
  have hratio (hdigits : d.digits ≠ 0) : ∃ n, IsNearest nth d.magnitude n ∧
      ofRatio d.negative (d.digits * Nat.pow 10 d.exponent.toNat)
        (Nat.pow 10 (-d.exponent).toNat) = ofMagnitude d.negative (min n (255 * 2 ^ 23)) := by
    have hnum : 0 < d.digits * Nat.pow 10 d.exponent.toNat :=
      Nat.mul_pos (Nat.pos_of_ne_zero hdigits) (Nat.pow_pos (by decide))
    have hden : 0 < Nat.pow 10 (-d.exponent).toNat := Nat.pow_pos (by decide)
    have hnearest := exists_isNearest_ofRatio d.negative hnum hden
    rwa [ratio_eq_magnitude] at hnearest
  unfold ofDecimal
  dsimp only
  split_ifs with hsmall hlarge
  · refine ⟨0, isNearest_zero ?_, rfl⟩
    rcases hsmall with hzero | hsmall
    · rw [Decimal.magnitude, hzero]
      norm_num
    · have hle : (10 : ℚ) ^ ((Decimal.width d.digits : Int) + d.exponent) ≤ 10 ^ (-46 : Int) :=
        zpow_le_zpow_right₀ (by norm_num) (by omega)
      exact (d.magnitude_lt.trans_le hle).trans (by norm_num)
  · rw [not_or] at hsmall
    obtain ⟨n, hn, -⟩ := hratio hsmall.1
    have hle : (10 : ℚ) ^ (39 : Int) ≤ 10 ^ ((Decimal.width d.digits : Int) + d.exponent - 1) :=
      zpow_le_zpow_right₀ (by norm_num) (by omega)
    have hbound := hle.trans (Decimal.pow_le_magnitude (Nat.pos_of_ne_zero hsmall.1))
    have hinfinity : 255 * 2 ^ 23 ≤ n :=
      (infinity_le_iff hn).mpr (le_trans (by norm_num) hbound)
    refine ⟨n, hn, ?_⟩
    rw [min_eq_right hinfinity]
    rfl
  · rw [not_or] at hsmall
    exact hratio hsmall.1

/-! ### The numbers themselves -/

/-- A number without its sign; for infinity, where the next finite number would be. -/
def magnitude (v : Binary32) : ℚ := v.significand * 2 ^ v.scale

/-- The bits below the sign. -/
def place (v : Binary32) : Nat := v.bits.toNat % 2 ^ 31

section Place

variable {v : Binary32} {negative : Bool} {n : Nat}

theorem magnitude_eq_nth (v : Binary32) : v.magnitude = nth v.place := by
  have hpow : Nat.pow 2 23 = 2 ^ 23 := rfl
  have hexponent : v.place / 2 ^ 23 = v.exponentField := by
    simp only [place, exponentField, hpow]
    omega
  have hfraction : v.place % 2 ^ 23 = v.fraction := by
    simp only [place, fraction, hpow]
    omega
  rw [nth, gap, hexponent, hfraction]
  rfl

theorem significand_mod_two (v : Binary32) : v.significand % 2 = v.place % 2 := by
  have hpow : Nat.pow 2 23 = 2 ^ 23 := rfl
  simp only [significand, fraction, place, hpow]
  split_ifs <;> omega

theorem significand_lt (v : Binary32) : v.significand < 2 ^ 24 := by
  have hpow : Nat.pow 2 23 = 2 ^ 23 := rfl
  simp only [significand, fraction, hpow]
  split_ifs <;> omega

theorem isFinite_iff : v.isFinite = true ↔ v.place < 255 * 2 ^ 23 := by
  have hpow : Nat.pow 2 23 = 2 ^ 23 := rfl
  simp only [isFinite, exponentField, place, hpow, decide_eq_true_eq]
  omega

/-- A number is its sign bit and the bits below it. -/
theorem ofMagnitude_place (v : Binary32) : ofMagnitude v.isNegative v.place = v := by
  have hpow : Nat.pow 2 31 = 2 ^ 31 := rfl
  have hlt : v.bits.toNat < 2 ^ 32 := v.bits.toNat_lt
  have hbits : (if v.isNegative then Nat.pow 2 31 + v.place else v.place) = v.bits.toNat := by
    simp only [isNegative, place, hpow, decide_eq_true_eq]
    split_ifs <;> omega
  rw [ofMagnitude, hbits, UInt32.ofNat_toNat]

theorem toNat_ofMagnitude (hn : n < 2 ^ 31) :
    (ofMagnitude negative n).bits.toNat = if negative then 2 ^ 31 + n else n := by
  have hpow : Nat.pow 2 31 = 2 ^ 31 := rfl
  rw [ofMagnitude, hpow]
  exact UInt32.toNat_ofNat_of_lt' (by split_ifs <;> simp [UInt32.size] <;> omega)

theorem place_ofMagnitude (hn : n < 2 ^ 31) : (ofMagnitude negative n).place = n := by
  rw [place, toNat_ofMagnitude hn]
  split_ifs <;> omega

theorem isNegative_ofMagnitude (hn : n < 2 ^ 31) :
    (ofMagnitude negative n).isNegative = negative := by
  have hpow : Nat.pow 2 31 = 2 ^ 31 := rfl
  rw [isNegative, toNat_ofMagnitude hn, hpow]
  cases negative with
  | true => simp
  | false => simpa using hn

end Place

/-! ### What a literal denotes -/

/-- A decimal rounded to 32 bits: the nearest finite number, and of two the one with the even
significand.  From halfway between the largest finite number and `2 ^ 128` on it is infinite. -/
inductive IsRounded (d : Decimal) (v : Binary32) : Prop
  | finite (hfinite : v.isFinite = true) (hsign : v.isNegative = d.negative)
      (hlt : d.magnitude < 2 ^ 128 - 2 ^ 103)
      (hnearest : ∀ w : Binary32, w.isFinite = true →
        |d.magnitude - v.magnitude| ≤ |d.magnitude - w.magnitude|)
      (heven : ∀ w : Binary32, w.isFinite = true → w.magnitude ≠ v.magnitude →
        |d.magnitude - v.magnitude| = |d.magnitude - w.magnitude| → v.significand % 2 = 0) :
      IsRounded d v
  | infinite (hle : 2 ^ 128 - 2 ^ 103 ≤ d.magnitude)
      (hbits : v.bits = if d.negative then 0xFF800000 else 0x7F800000) : IsRounded d v

/-- Among the places that are not finite none is nearer than the largest finite one. -/
theorem isNearest_of_finite {x : ℚ} {n : Nat} (hx : x < 2 ^ 128 - 2 ^ 103)
    (hnearest : ∀ k < 255 * 2 ^ 23, |x - nth n| ≤ |x - nth k|)
    (heven : ∀ k < 255 * 2 ^ 23, k ≠ n → |x - nth n| = |x - nth k| → n % 2 = 0) :
    IsNearest nth x n := by
  have hlargest := hnearest (255 * 2 ^ 23 - 1) (by decide)
  rw [nth_largest] at hlargest
  have hfar : ∀ k, 255 * 2 ^ 23 ≤ k → |x - nth n| < |x - nth k| := by
    intro k hk
    have hplace : nth (255 * 2 ^ 23) ≤ nth k := strictMono_nth.monotone hk
    rw [nth_infinity] at hplace
    have hdist : nth k - x ≤ |x - nth k| := by
      rw [abs_sub_comm]
      exact le_abs_self _
    refine lt_of_le_of_lt hlargest (lt_of_lt_of_le (abs_lt.mpr ⟨?_, ?_⟩) hdist)
    · linarith
    · linarith
  constructor
  · intro k
    rcases Nat.lt_or_ge k (255 * 2 ^ 23) with hk | hk
    · exact hnearest k hk
    · exact (hfar k hk).le
  · intro k hne htie
    rcases Nat.lt_or_ge k (255 * 2 ^ 23) with hk | hk
    · exact heven k hk hne htie
    · exact absurd htie (hfar k hk).ne

/-- **A decimal is read to what it is rounded to, and to nothing else.** -/
theorem isRounded_iff {d : Decimal} {v : Binary32} : IsRounded d v ↔ ofDecimal d = v := by
  obtain ⟨n, hn, hread⟩ := exists_isNearest_ofDecimal d
  rw [hread]
  constructor
  · intro h
    cases h with
    | finite hfinite hsign hlt hnearest heven =>
        have hplace := isFinite_iff.mp hfinite
        have hv : IsNearest nth d.magnitude v.place := by
          refine isNearest_of_finite hlt (fun k hk => ?_) fun k hk hne htie => ?_
          · have hw : (ofMagnitude false k).place = k := place_ofMagnitude (by omega)
            have hle := hnearest (ofMagnitude false k) (isFinite_iff.mpr (by rwa [hw]))
            rwa [magnitude_eq_nth, magnitude_eq_nth, hw] at hle
          · have hw : (ofMagnitude false k).place = k := place_ofMagnitude (by omega)
            have heven := heven (ofMagnitude false k) (isFinite_iff.mpr (by rwa [hw]))
            rw [magnitude_eq_nth, magnitude_eq_nth, hw, significand_mod_two] at heven
            exact heven (strictMono_nth.injective.ne hne) htie
        rw [hn.unique strictMono_nth hv, min_eq_left hplace.le, ← hsign, ofMagnitude_place]
    | infinite hle hbits =>
        obtain ⟨bits⟩ := v
        have hbits : bits = if d.negative then 0xFF800000 else 0x7F800000 := hbits
        rw [min_eq_right ((infinity_le_iff hn).mpr hle), hbits]
        cases d.negative <;> rfl
  · rintro rfl
    rcases lt_or_ge d.magnitude (2 ^ 128 - 2 ^ 103) with hlt | hle
    · have hfinite : n < 255 * 2 ^ 23 := by
        rw [← not_le, infinity_le_iff hn, not_le]
        exact hlt
      have hplace : (ofMagnitude d.negative n).place = n := place_ofMagnitude (by omega)
      rw [min_eq_left hfinite.le]
      refine .finite (isFinite_iff.mpr (by rwa [hplace])) (isNegative_ofMagnitude (by omega)) hlt
        (fun w _ => ?_) fun w _ hne htie => ?_
      · rw [magnitude_eq_nth, magnitude_eq_nth, hplace]
        exact hn.nearest _
      · rw [magnitude_eq_nth, magnitude_eq_nth, hplace] at htie
        rw [significand_mod_two, hplace]
        refine hn.even w.place ?_ htie
        rintro heq
        rw [magnitude_eq_nth, magnitude_eq_nth, hplace, heq] at hne
        exact hne rfl
    · rw [min_eq_right ((infinity_le_iff hn).mpr hle)]
      exact .infinite hle (by cases d.negative <;> rfl)

/-- **A decimal that is near a finite number, and has its sign, is read as that number.** -/
theorem ofDecimal_eq {v : Binary32} {d : Decimal} (hfinite : v.isFinite = true)
    (hsign : d.negative = v.isNegative)
    (hnear : |d.magnitude - v.magnitude| < 1 / 4 * 2 ^ v.scale) : ofDecimal d = v := by
  obtain ⟨n, hn, hread⟩ := exists_isNearest_ofDecimal d
  have hgap : (2 : ℚ) ^ v.scale = gap v.place := by
    have hpow : Nat.pow 2 23 = 2 ^ 23 := rfl
    have hexponent : v.exponentField = v.place / 2 ^ 23 := by
      simp only [place, exponentField, hpow]
      omega
    rw [scale, gap, hexponent]
  rw [magnitude_eq_nth, hgap] at hnear
  obtain ⟨hbelow, habove⟩ := abs_lt.mp hnear
  have hpos := gap_pos v.place
  have hv : IsNearest nth d.magnitude v.place := by
    refine isNearest_of_neighbours strictMono_nth (Or.inl ?_) fun k hk => Or.inl ?_
    · rw [nth_succ]
      linarith
    · have hstep := gap_succ_le k
      have hnext := nth_succ k
      rw [hk] at hstep hnext
      linarith
  have hplace := isFinite_iff.mp hfinite
  rw [hread, hn.unique strictMono_nth hv, min_eq_left hplace.le, hsign, ofMagnitude_place]

end Binary32

/-- What a literal denotes. -/
inductive Literal.Denotes : Literal → Binary32 → Prop
  | finite {d : Decimal} {v : Binary32} (h : Binary32.IsRounded d v) : Denotes (.finite d) v
  | infinite (negative : Bool) :
      Denotes (.infinite negative) ⟨if negative then 0xFF800000 else 0x7F800000⟩
  | notANumber (negative : Bool) :
      Denotes (.notANumber negative) ⟨if negative then 0xFFC00000 else 0x7FC00000⟩

/-- **A literal is read as what it denotes.** -/
theorem Literal.denotes_iff {l : Literal} {v : Binary32} :
    l.Denotes v ↔ Binary32.ofLiteral l = v := by
  cases l with
  | finite d =>
      rw [Binary32.ofLiteral, ← Binary32.isRounded_iff]
      constructor
      · rintro ⟨h⟩
        exact h
      · exact .finite
  | infinite negative =>
      have hread : Binary32.ofLiteral (.infinite negative) =
          ⟨if negative then 0xFF800000 else 0x7F800000⟩ := by
        cases negative <;> rfl
      rw [hread]
      constructor
      · rintro ⟨⟩
        rfl
      · rintro rfl
        exact .infinite negative
  | notANumber negative =>
      have hread : Binary32.ofLiteral (.notANumber negative) =
          ⟨if negative then 0xFFC00000 else 0x7FC00000⟩ := by
        cases negative <;> rfl
      rw [hread]
      constructor
      · rintro ⟨⟩
        rfl
      · rintro rfl
        exact .notANumber negative

end TensorText
