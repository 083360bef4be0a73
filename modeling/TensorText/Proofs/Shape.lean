/-
Which values fill a shape.

The elements of a shape are counted from left to right, and the count has to fit in 64 bits at
every axis.  `IsCountable` says for which shapes it does, and `Counted` names all that counting
can come to: the number of elements, or the first axis that breaks it, whatever stands behind
that axis.

Once a dimension is zero the product stays zero, so what has to fit is the product of the
dimensions in front of the first zero.  Without a zero this is the product of them all, and it
fits as soon as there are as many values.  With a zero it is not: a shape without elements can
be refused because of the dimensions in front of its zero, and it is accepted with its axes in
another order.
-/
import Mathlib.Algebra.BigOperators.Ring.List
import Mathlib.Algebra.Order.BigOperators.GroupWithZero.List
import Mathlib.Algebra.Order.Ring.Int
import Mathlib.Data.Bool.AllAny
import Mathlib.Data.List.Induction
import Mathlib.Data.List.TakeWhile
import TensorText.Proofs.Tensor

namespace TensorText

/-- The product of the dimensions of a shape, as a whole number of any size. -/
def elements (shape : List Int64) : Int := (shape.map Int64.toInt).prod

@[simp] theorem elements_nil : elements [] = 1 := rfl

@[simp] theorem elements_append (s s' : List Int64) :
    elements (s ++ s') = elements s * elements s' := by
  rw [elements, List.map_append, List.prod_append]
  rfl

@[simp] theorem elements_singleton (d : Int64) : elements [d] = d.toInt := by
  rw [elements, List.map_singleton, List.prod_singleton]

/-- No dimension is negative, and the product fits in 64 bits at every axis. -/
structure IsCountable (shape : List Int64) : Prop where
  nonneg : ∀ d ∈ shape, 0 ≤ d.toInt
  fits : ∀ s, s <+: shape → elements s < 2 ^ 64

theorem elements_nonneg {shape : List Int64} (h : ∀ d ∈ shape, 0 ≤ d.toInt) :
    0 ≤ elements shape :=
  List.prod_nonneg (List.forall_mem_map.mpr h)

theorem isCountable_nil : IsCountable [] := by
  constructor
  · simp
  · intro s hs
    rw [List.prefix_nil.mp hs]
    decide

/-- One axis more asks for one dimension and one product more. -/
theorem isCountable_concat {s : List Int64} {d : Int64} :
    IsCountable (s ++ [d]) ↔ IsCountable s ∧ 0 ≤ d.toInt ∧ elements (s ++ [d]) < 2 ^ 64 := by
  constructor
  · intro h
    have hs : IsCountable s := by
      constructor
      · intro c hc
        exact h.nonneg c (List.mem_append_left _ hc)
      · intro q hq
        exact h.fits q (hq.trans (List.prefix_append _ _))
    exact ⟨hs, h.nonneg d (by simp), h.fits _ List.prefix_rfl⟩
  · rintro ⟨h, hd, hfits⟩
    constructor
    · intro c hc
      rcases List.mem_append.mp hc with hc | hc
      · exact h.nonneg c hc
      · rw [List.mem_singleton.mp hc]
        exact hd
    · intro q hq
      rcases List.prefix_concat_iff.mp hq with rfl | hq
      · exact hfits
      · exact h.fits q hq

/-! ### What counting comes to -/

/-- What counting the elements of a shape comes to: their number, or the first axis at which
there is a negative dimension or a product that is too large.  Nothing behind that axis has a
bearing on it. -/
inductive Counted : List Int64 → Except InputCause Nat → Prop
  /-- Every axis can be counted. -/
  | all {shape : List Int64} (h : IsCountable shape) :
      Counted shape (.ok (elements shape).toNat)
  /-- The axes before can be counted, and this dimension is negative. -/
  | negative {before : List Int64} {d : Int64} (after : List Int64) (h : IsCountable before)
      (hd : d.toInt < 0) :
      Counted (before ++ d :: after) (.error (.negative before.length d.toInt))
  /-- The axes before can be counted, but not together with this one. -/
  | tooMany {before : List Int64} {d : Int64} (after : List Int64) (h : IsCountable before)
      (hd : 0 ≤ d.toInt) (hbig : 2 ^ 64 ≤ elements (before ++ [d])) :
      Counted (before ++ d :: after) (.error .uncountable)

/-- The count of a shape with one axis more. -/
theorem toNat_elements_concat {s : List Int64} {d : Int64} (hs : ∀ c ∈ s, 0 ≤ c.toInt)
    (hd : 0 ≤ d.toInt) : (elements (s ++ [d])).toNat = (elements s).toNat * d.toInt.toNat := by
  rw [elements_append, elements_singleton, Int.toNat_mul (elements_nonneg hs) hd]

/-- Whether a count is too large is the same as a whole number of any size. -/
theorem pow_le_toNat_elements {s : List Int64} :
    Nat.pow 2 64 ≤ (elements s).toNat ↔ 2 ^ 64 ≤ elements s := by
  have hpow : Nat.pow 2 64 = 18446744073709551616 := rfl
  omega

/-- Counting passes over the axes that can be counted. -/
theorem countElements_append {s : List Int64} (hs : IsCountable s) (after : List Int64) :
    countElements (s ++ after) = countElementsFrom s.length (elements s).toNat after := by
  -- The last axis of `s` is the last to be passed over, so the induction takes it off first.
  induction s using List.reverseRecOn generalizing after with
  | nil => rfl
  | append_singleton s d ih =>
      obtain ⟨hs, hd, hfits⟩ := isCountable_concat.mp hs
      have hcount := toNat_elements_concat hs.nonneg hd
      have hsmall : ¬Nat.pow 2 64 ≤ (elements s).toNat * d.toInt.toNat := by
        rw [← hcount, pow_le_toNat_elements]
        exact not_le.mpr hfits
      rw [List.append_assoc, List.singleton_append, ih hs, countElementsFrom,
        if_neg (not_lt.mpr hd), if_neg hsmall, ← hcount, List.length_append,
        List.length_singleton]

theorem Counted.countElements_eq {shape : List Int64} {r : Except InputCause Nat}
    (h : Counted shape r) : countElements shape = r := by
  cases h with
  | all h =>
      have hall := countElements_append h []
      rwa [List.append_nil] at hall
  | negative after h hd => rw [countElements_append h, countElementsFrom, if_pos hd]
  | tooMany after h hd hbig =>
      rw [countElements_append h, countElementsFrom, if_neg (not_lt.mpr hd), if_pos]
      rwa [← toNat_elements_concat h.nonneg hd, pow_le_toNat_elements]

/-- What counting comes to is settled axis by axis: the first that breaks it decides. -/
theorem exists_counted (shape : List Int64) : ∃ r, Counted shape r := by
  induction shape using List.reverseRecOn with
  | nil => exact ⟨_, .all isCountable_nil⟩
  | append_singleton s d ih =>
      obtain ⟨r, h⟩ := ih
      cases h with
      | all h =>
          rcases lt_or_ge d.toInt 0 with hd | hd
          · exact ⟨_, .negative [] h hd⟩
          · rcases lt_or_ge (elements (s ++ [d])) (2 ^ 64) with hfits | hbig
            · exact ⟨_, .all (isCountable_concat.mpr ⟨h, hd, hfits⟩)⟩
            · exact ⟨_, .tooMany [] h hd hbig⟩
      | negative after h hd =>
          rw [List.append_assoc, List.cons_append]
          exact ⟨_, .negative _ h hd⟩
      | tooMany after h hd hbig =>
          rw [List.append_assoc, List.cons_append]
          exact ⟨_, .tooMany _ h hd hbig⟩

/-- **Counting comes to what the axes of the shape say.** -/
theorem countElements_eq_iff {shape : List Int64} {r : Except InputCause Nat} :
    countElements shape = r ↔ Counted shape r := by
  constructor
  · rintro rfl
    obtain ⟨r, h⟩ := exists_counted shape
    rwa [h.countElements_eq]
  · exact Counted.countElements_eq

theorem countElements_eq_ok_iff {shape : List Int64} {n : Nat} :
    countElements shape = .ok n ↔ IsCountable shape ∧ elements shape = n := by
  rw [countElements_eq_iff]
  constructor
  · rintro ⟨h⟩
    exact ⟨h, (Int.toNat_of_nonneg (elements_nonneg h.nonneg)).symm⟩
  · rintro ⟨h, hn⟩
    have hall := Counted.all h
    rwa [hn, Int.toNat_natCast] at hall

/-! ### The axis that is blamed -/

/-- What is wrong with an axis: its dimension is negative, or the elements up to it are too many. -/
inductive BreaksAt (shape : List Int64) (i : Nat) : InputCause → Prop
  | negative {d : Int64} (hd : shape[i]? = some d) (h : d.toInt < 0) :
      BreaksAt shape i (.negative i d.toInt)
  | tooMany {d : Int64} (hd : shape[i]? = some d) (h : 0 ≤ d.toInt)
      (hbig : 2 ^ 64 ≤ elements (shape.take (i + 1))) : BreaksAt shape i .uncountable

/-- The axis is the first with which something is wrong. -/
structure BreaksFirst (shape : List Int64) (i : Nat) (cause : InputCause) : Prop where
  breaks : BreaksAt shape i cause
  first : ∀ j < i, ∀ c, ¬BreaksAt shape j c

/-- What is wrong with an axis shows in the axes up to it. -/
theorem BreaksAt.congr {shape shape' : List Int64} {i j : Nat} {cause : InputCause}
    (h : BreaksAt shape j cause) (hj : j ≤ i)
    (hsame : shape'.take (i + 1) = shape.take (i + 1)) : BreaksAt shape' j cause := by
  have hget : shape'[j]? = shape[j]? := by
    rw [← List.getElem?_take_of_lt (Nat.lt_succ_of_le hj), hsame,
      List.getElem?_take_of_lt (Nat.lt_succ_of_le hj)]
  have htake : shape'.take (j + 1) = shape.take (j + 1) := by
    have hmin : min (j + 1) (i + 1) = j + 1 := Nat.min_eq_left (Nat.succ_le_succ hj)
    rw [← hmin, ← List.take_take, hsame, List.take_take]
  cases h with
  | negative hd h => exact .negative (hget.trans hd) h
  | tooMany hd h hbig => exact .tooMany (hget.trans hd) h (htake ▸ hbig)

theorem BreaksFirst.congr {shape shape' : List Int64} {i : Nat} {cause : InputCause}
    (h : BreaksFirst shape i cause) (hsame : shape'.take (i + 1) = shape.take (i + 1)) :
    BreaksFirst shape' i cause :=
  ⟨h.breaks.congr (Nat.le_refl i) hsame,
    fun j hj c hc => h.first j hj c (hc.congr (Nat.le_of_lt hj) hsame.symm)⟩

/-- Nothing is wrong with axes that can be counted. -/
theorem not_breaksAt_append {s : List Int64} (hs : IsCountable s) (after : List Int64) {j : Nat}
    (hj : j < s.length) (cause : InputCause) : ¬BreaksAt (s ++ after) j cause := by
  rintro (⟨hd, h⟩ | ⟨hd, h, hbig⟩)
  · rw [List.getElem?_append_left hj] at hd
    exact absurd (hs.nonneg _ (List.mem_of_getElem? hd)) (not_le.mpr h)
  · rw [List.take_append_of_le_length hj] at hbig
    exact absurd (hs.fits _ (List.take_prefix _ _)) (not_lt.mpr hbig)

/-- Axes with which nothing is wrong can be counted. -/
theorem isCountable_take {shape : List Int64} {i : Nat}
    (h : ∀ j < i, ∀ cause, ¬BreaksAt shape j cause) : IsCountable (shape.take i) := by
  induction i with
  | zero => exact isCountable_nil
  | succ i ih =>
      have hbefore := ih fun j hj => h j (Nat.lt_succ_of_lt hj)
      cases hd : shape[i]? with
      | none =>
          rw [List.take_add_one, hd, Option.toList_none, List.append_nil]
          exact hbefore
      | some d =>
          have htake : shape.take (i + 1) = shape.take i ++ [d] := by
            rw [List.take_add_one, hd, Option.toList_some]
          have hnonneg : 0 ≤ d.toInt :=
            not_lt.mp fun hneg => h i (Nat.lt_succ_self i) _ (.negative hd hneg)
          have hfits : elements (shape.take (i + 1)) < 2 ^ 64 :=
            not_le.mp fun hbig => h i (Nat.lt_succ_self i) _ (.tooMany hd hnonneg hbig)
          rw [htake] at hfits ⊢
          exact isCountable_concat.mpr ⟨hbefore, hnonneg, hfits⟩

theorem take_length_succ (before : List Int64) (d : Int64) (after : List Int64) :
    (before ++ d :: after).take (before.length + 1) = before ++ [d] := by
  rw [← List.singleton_append, ← List.append_assoc, List.take_left' (by simp)]

theorem exists_axes_around {shape : List Int64} {i : Nat} {d : Int64} (h : shape[i]? = some d) :
    ∃ before after, shape = before ++ d :: after ∧ before.length = i := by
  obtain ⟨hi, rfl⟩ := List.getElem?_eq_some_iff.mp h
  refine ⟨shape.take i, shape.drop (i + 1), ?_, List.length_take_of_le (Nat.le_of_lt hi)⟩
  rw [List.getElem_cons_drop, List.take_append_drop]

/-- **Counting fails with what is wrong with the first such axis.** -/
theorem countElements_eq_error_iff {shape : List Int64} {cause : InputCause} :
    countElements shape = .error cause ↔ ∃ i, BreaksFirst shape i cause := by
  rw [countElements_eq_iff]
  constructor
  · intro h
    cases h with
    | @negative before d after hbefore hd =>
        refine ⟨before.length, .negative (by simp) hd, fun j hj c => ?_⟩
        exact not_breaksAt_append hbefore _ hj c
    | @tooMany before d after hbefore hd hbig =>
        refine ⟨before.length, .tooMany (d := d) (by simp) hd ?_, fun j hj c => ?_⟩
        · rwa [take_length_succ]
        · exact not_breaksAt_append hbefore _ hj c
  · rintro ⟨i, hbreaks, hfirst⟩
    have hbefore := isCountable_take hfirst
    cases hbreaks with
    | @negative d hd h =>
        obtain ⟨before, after, rfl, rfl⟩ := exists_axes_around hd
        rw [List.take_left] at hbefore
        exact .negative after hbefore h
    | @tooMany d hd h hbig =>
        obtain ⟨before, after, rfl, rfl⟩ := exists_axes_around hd
        rw [List.take_left] at hbefore
        rw [take_length_succ] at hbig
        exact .tooMany after hbefore h hbig

/--
**Counting never wraps, and it blames the first axis that breaks it.**  The count is the product
of the dimensions, if none of them is negative and the product fits in 64 bits at every axis.
Otherwise it fails with the first axis of which this is not so, and with nothing behind that axis;
a tensor is refused for the same cause, whatever values it was to have.
-/
theorem countElements_outcome (shape : List Int64) :
    (∀ n, countElements shape = .ok n ↔
      (∀ d ∈ shape, 0 ≤ d.toInt) ∧ (∀ s, s <+: shape → elements s < 2 ^ 64) ∧
        elements shape = n) ∧
    (∀ cause, countElements shape = .error cause ↔ ∃ i, BreaksFirst shape i cause) ∧
    ∀ i cause, BreaksFirst shape i cause →
      ∀ shape' : List Int64, shape'.take (i + 1) = shape.take (i + 1) →
        ∀ name values, Tensor.new name shape' values = .error ⟨name, cause⟩ := by
  refine ⟨fun n => ?_, fun cause => countElements_eq_error_iff, ?_⟩
  · rw [countElements_eq_ok_iff]
    constructor
    · rintro ⟨⟨hnonneg, hfits⟩, hn⟩
      exact ⟨hnonneg, hfits, hn⟩
    · rintro ⟨hnonneg, hfits, hn⟩
      exact ⟨⟨hnonneg, hfits⟩, hn⟩
  · intro i cause h shape' hsame name values
    have hcount := countElements_eq_error_iff.mpr ⟨i, h.congr hsame⟩
    exact Tensor.new_eq_error_iff.mpr ⟨rfl, Or.inl hcount⟩

/-- The product gets too large with the second axis, so the negative one behind it is not blamed,
and neither is any other axis in its place. -/
theorem countElements_outcome_large :
    BreaksFirst [4294967296, 4294967296, -1] 1 .uncountable ∧
      [4294967296, 4294967296, 0, 7].take 2 = [4294967296, 4294967296, (-1 : Int64)].take 2 ∧
      countElements [4294967296, 4294967296, -1] = .error .uncountable ∧
      Tensor.new "x" [4294967296, 4294967296, 0, 7] [] = .error ⟨"x", .uncountable⟩ := by
  have hfirst : BreaksFirst [4294967296, 4294967296, -1] 1 .uncountable := by
    refine ⟨.tooMany rfl (by decide) (by decide), fun j hj c hbreaks => ?_⟩
    obtain rfl : j = 0 := Nat.lt_one_iff.mp hj
    cases hbreaks with
    | negative hd h =>
        cases hd
        exact absurd h (by decide)
    | tooMany hd h hbig => exact absurd hbig (by decide)
  obtain ⟨-, hfails, hsame⟩ := countElements_outcome [4294967296, 4294967296, -1]
  exact ⟨hfirst, rfl, (hfails _).mpr ⟨1, hfirst⟩, hsame 1 _ hfirst _ rfl "x" []⟩

/-! ### Shapes with a zero -/

theorem elements_eq_zero {s : List Int64} (h : 0 ∈ s) : elements s = 0 :=
  List.prod_eq_zero (List.mem_map.mpr ⟨0, h, rfl⟩)

theorem one_le_elements {s : List Int64} (h : ∀ d ∈ s, 0 ≤ d.toInt) (h0 : 0 ∉ s) :
    1 ≤ elements s := by
  refine List.one_le_prod (List.forall_mem_map.mpr ?_)
  intro d hd
  have hne : d.toInt ≠ 0 := by
    intro hzero
    rw [← Int64.toInt_zero, Int64.toInt_inj] at hzero
    exact h0 (hzero ▸ hd)
  have := h d hd
  omega

/-- More axes have no fewer elements, unless one of them is zero. -/
theorem elements_le_append {s s' : List Int64} (h : ∀ d ∈ s ++ s', 0 ≤ d.toInt) (h0 : 0 ∉ s') :
    elements s ≤ elements (s ++ s') := by
  have hs : 0 ≤ elements s := elements_nonneg fun d hd => h d (List.mem_append_left _ hd)
  have hs' : 1 ≤ elements s' := one_le_elements (fun d hd => h d (List.mem_append_right _ hd)) h0
  rw [elements_append]
  exact le_mul_of_one_le_right hs hs'

/-- The dimensions in front of the first zero, all of them if there is none. -/
def dimensionsBeforeZero (shape : List Int64) : List Int64 := shape.takeWhile fun d => d != 0

theorem dimensionsBeforeZero_eq_self {shape : List Int64} (h : 0 ∉ shape) :
    dimensionsBeforeZero shape = shape := by
  rw [dimensionsBeforeZero, List.takeWhile_eq_self_iff]
  intro d hd
  rw [bne_iff_ne]
  rintro rfl
  exact h hd

/-- **A shape can be counted if it has no negative dimension and what is in front of its first
zero fits.** -/
theorem isCountable_iff {shape : List Int64} : IsCountable shape ↔
    (∀ d ∈ shape, 0 ≤ d.toInt) ∧ elements (dimensionsBeforeZero shape) < 2 ^ 64 := by
  constructor
  · intro h
    exact ⟨h.nonneg, h.fits _ (List.takeWhile_prefix _)⟩
  · rintro ⟨hnonneg, hfits⟩
    refine ⟨hnonneg, ?_⟩
    rintro q ⟨r, rfl⟩
    by_cases h0 : 0 ∈ q
    · rw [elements_eq_zero h0]
      decide
    · refine lt_of_le_of_lt ?_ hfits
      have hq : dimensionsBeforeZero (q ++ r) = q ++ dimensionsBeforeZero r := by
        rw [dimensionsBeforeZero, List.takeWhile_append_of_pos]
        · rfl
        · intro d hd
          rw [bne_iff_ne]
          rintro rfl
          exact h0 hd
      rw [hq]
      refine elements_le_append ?_ ?_
      · intro d hd
        rw [← hq] at hd
        exact hnonneg d ((List.takeWhile_sublist _).mem hd)
      · intro hmem
        exact absurd (List.mem_takeWhile_imp hmem) (by decide)

/-- In whichever order the axes stand, the product of those that are not zero bounds what is
in front of the first zero. -/
theorem elements_dimensionsBeforeZero_le {shape : List Int64} (h : ∀ d ∈ shape, 0 ≤ d.toInt) :
    elements (dimensionsBeforeZero shape) ≤ elements (shape.filter fun d => d != 0) := by
  have hsplit : (shape.filter fun d => d != 0) =
      dimensionsBeforeZero shape ++ ((shape.dropWhile fun d => d != 0).filter fun d => d != 0) := by
    conv_lhs => rw [← List.takeWhile_append_dropWhile (p := fun d : Int64 => d != 0) (l := shape)]
    rw [List.filter_append, List.filter_eq_self.mpr]
    · rfl
    · intro d hd
      have hne := List.mem_takeWhile_imp hd
      exact hne
  rw [hsplit]
  refine elements_le_append ?_ ?_
  · intro d hd
    rw [← hsplit] at hd
    exact h d (List.mem_of_mem_filter hd)
  · intro hmem
    exact absurd (List.of_mem_filter hmem) (by decide)

/-! ### Values for a shape -/

/-- No dimension is negative, and there is one value for each element. -/
structure Fills (values : List Binary32) (shape : List Int64) : Prop where
  nonneg : ∀ d ∈ shape, 0 ≤ d.toInt
  elements_eq : elements shape = values.length

/-- Whether values fill a shape does not depend on the order of its axes. -/
theorem Fills.perm {values : List Binary32} {shape shape' : List Int64} (h : Fills values shape)
    (hperm : shape.Perm shape') : Fills values shape' := by
  refine ⟨fun d hd => h.nonneg d (hperm.mem_iff.mpr hd), ?_⟩
  rw [← h.elements_eq]
  exact ((hperm.map Int64.toInt).prod_eq).symm

theorem fills_perm_iff {values : List Binary32} {shape shape' : List Int64}
    (h : shape.Perm shape') : Fills values shape ↔ Fills values shape' :=
  ⟨fun hs => hs.perm h, fun hs => hs.perm h.symm⟩

namespace Tensor

variable {name : String} {shape : List Int64} {values : List Binary32}

theorem exists_new_eq_ok_iff : (∃ t, Tensor.new name shape values = .ok t) ↔
    Fills values shape ∧ elements (dimensionsBeforeZero shape) < 2 ^ 64 := by
  have hcount : (∃ t, Tensor.new name shape values = .ok t) ↔
      countElements shape = .ok values.length := by
    constructor
    · rintro ⟨t, ht⟩
      exact (new_eq_ok_iff.mp ht).1
    · intro h
      exact ⟨⟨name, shape, values, h⟩, new_eq_ok_iff.mpr ⟨h, rfl, rfl, rfl⟩⟩
  rw [hcount, countElements_eq_ok_iff, isCountable_iff]
  constructor
  · rintro ⟨⟨hnonneg, hfits⟩, heq⟩
    exact ⟨⟨hnonneg, heq⟩, hfits⟩
  · rintro ⟨⟨hnonneg, heq⟩, hfits⟩
    exact ⟨⟨hnonneg, hfits⟩, heq⟩

/-- Where no dimension is zero, the values that fill a shape are as many as its elements, and
there are never too many of them. -/
theorem fits_of_fills (hlength : values.length < 2 ^ 64) (h : Fills values shape)
    (h0 : 0 ∉ shape) : elements (dimensionsBeforeZero shape) < 2 ^ 64 := by
  rw [dimensionsBeforeZero_eq_self h0, h.elements_eq]
  exact_mod_cast hlength

/--
**Values are accepted for a shape if they fill it and what is in front of its first zero fits
in 64 bits.**  So among the values that fill a shape only those of a shape without elements
can be refused, and only for the dimensions in front of its first zero; unless the product of
the dimensions that are not zero is too large, the order of the axes makes no difference.
-/
theorem new_iff_fills (name : String) (shape : List Int64) (values : List Binary32) :
    ((∃ t, Tensor.new name shape values = .ok t) ↔
      Fills values shape ∧ elements (dimensionsBeforeZero shape) < 2 ^ 64) ∧
    (values.length < 2 ^ 64 →
      (((∃ t, Tensor.new name shape values = .ok t) ↔ Fills values shape) ↔
        ¬(Fills values shape ∧ 0 ∈ shape ∧
          2 ^ 64 ≤ elements (dimensionsBeforeZero shape))) ∧
      ((0 ∈ shape → elements (shape.filter fun d => d != 0) < 2 ^ 64) →
        ∀ shape', shape'.Perm shape →
          ((∃ t, Tensor.new name shape' values = .ok t) ↔ Fills values shape))) := by
  refine ⟨exists_new_eq_ok_iff, fun hlength => ⟨?_, ?_⟩⟩
  · rw [exists_new_eq_ok_iff]
    constructor
    · rintro h ⟨hfills, -, hbig⟩
      exact absurd (h.mpr hfills).2 (not_lt.mpr hbig)
    · intro h
      refine ⟨And.left, fun hfills => ⟨hfills, ?_⟩⟩
      by_contra hbig
      have hmem : 0 ∈ shape := by
        by_contra h0
        exact hbig (fits_of_fills hlength hfills h0)
      exact h ⟨hfills, hmem, not_lt.mp hbig⟩
  · intro hsmall shape' hperm
    rw [exists_new_eq_ok_iff, fills_perm_iff hperm]
    refine ⟨And.left, fun hfills => ⟨hfills, ?_⟩⟩
    have hfills' := hfills.perm hperm.symm
    by_cases h0 : 0 ∈ shape'
    · calc elements (dimensionsBeforeZero shape')
          ≤ elements (shape'.filter fun d => d != 0) :=
            elements_dimensionsBeforeZero_le hfills'.nonneg
        _ = elements (shape.filter fun d => d != 0) :=
            ((hperm.filter _).map Int64.toInt).prod_eq
        _ < 2 ^ 64 := hsmall (hperm.mem_iff.mp h0)
    · exact fits_of_fills hlength hfills' h0

/-- **A shape without elements can be refused as too large.**  It is the order of its axes that
decides: with the zero in front it is accepted. -/
theorem new_large_before_zero : Fills [] [4611686018427387904, 4, 0] ∧
    Tensor.new "x" [4611686018427387904, 4, 0] [] = .error ⟨"x", .uncountable⟩ ∧
    ∃ t, Tensor.new "x" [0, 4611686018427387904, 4] [] = .ok t := by
  refine ⟨⟨?_, by decide⟩, by decide, ⟨"x", [0, 4611686018427387904, 4], [], rfl⟩, rfl⟩
  exact List.all_iff_forall_prop.mp (by decide)

/-- A zero behind dimensions that fit: accepted, and in every order of the axes. -/
theorem new_iff_fills_zero : ([] : List Binary32).length < 2 ^ 64 ∧
    elements ([4294967296, 3, 0].filter fun d : Int64 => d != 0) < 2 ^ 64 ∧
    List.Perm [3, 0, 4294967296] [4294967296, 3, (0 : Int64)] ∧
    ∃ t, Tensor.new "z" [3, 0, 4294967296] [] = .ok t := by
  have hlength : ([] : List Binary32).length < 2 ^ 64 := by decide
  have hsmall : elements ([4294967296, 3, 0].filter fun d : Int64 => d != 0) < 2 ^ 64 := by decide
  have hperm : List.Perm [3, 0, 4294967296] [4294967296, 3, (0 : Int64)] := by decide
  have hfills : Fills [] [4294967296, 3, 0] :=
    ⟨List.all_iff_forall_prop.mp (by decide), by decide⟩
  have horder := ((new_iff_fills "z" [4294967296, 3, 0] []).2 hlength).2 (fun _ => hsmall) _ hperm
  exact ⟨hlength, hsmall, hperm, horder.mpr hfills⟩

end Tensor

end TensorText
