/-
The same step for every item of a list.

The items are taken in order and the first that fails ends the row.  So a row succeeds
exactly if each of its steps does, and then yields one result per item; and it fails exactly
if some step does, and then with the failure of the first.
-/
import Mathlib.Data.List.Forall2
import TensorText.Steps

namespace TensorText

variable {ε α β : Type} {f : α → Except ε β}

/-- A row of steps succeeds if each step does, one result for each item. -/
theorem mapM_eq_ok {as : List α} {bs : List β} :
    as.mapM f = .ok bs ↔ List.Forall₂ (fun a b => f a = .ok b) as bs := by
  induction as generalizing bs with
  | nil =>
      rw [List.mapM_nil, List.forall₂_nil_left_iff]
      exact ⟨fun h => by cases h; rfl, fun h => by rw [h]; rfl⟩
  | cons a as ih =>
      rw [List.mapM_cons, bind_eq_ok, List.forall₂_cons_left_iff]
      constructor
      · rintro ⟨b, hb, h⟩
        obtain ⟨bs', hbs', h⟩ := bind_eq_ok.mp h
        cases h
        exact ⟨b, bs', hb, ih.mp hbs', rfl⟩
      · rintro ⟨b, bs', hb, hbs', rfl⟩
        exact ⟨b, hb, bind_eq_ok.mpr ⟨bs', ih.mpr hbs', rfl⟩⟩

/-- In a row of steps that succeeds there is none that fails. -/
theorem exists_ok_of_mapM {as : List α} {bs : List β} (h : as.mapM f = .ok bs) :
    ∀ a ∈ as, ∃ b, f a = .ok b := by
  have hrow := mapM_eq_ok.mp h
  clear h
  induction hrow with
  | nil => simp
  | cons hab _ ih => exact List.forall_mem_cons.mpr ⟨⟨_, hab⟩, ih⟩

/-- A row of steps fails with the first step that does. -/
theorem mapM_eq_error {as : List α} {e : ε} :
    as.mapM f = .error e ↔ ∃ (before : List α) (a : α) (after : List α),
      as = before ++ a :: after ∧ (∀ x ∈ before, ∃ b, f x = .ok b) ∧ f a = .error e := by
  induction as with
  | nil =>
      constructor
      · intro h
        cases h
      · rintro ⟨before, a, after, h, -, -⟩
        simp at h
  | cons x as ih =>
      rw [List.mapM_cons, bind_eq_error]
      constructor
      · rintro (hx | ⟨b, hb, h⟩)
        · exact ⟨[], x, as, rfl, by simp, hx⟩
        · rcases bind_eq_error.mp h with has | ⟨bs, -, h⟩
          · obtain ⟨before, a, after, rfl, hbefore, ha⟩ := ih.mp has
            refine ⟨x :: before, a, after, rfl, ?_, ha⟩
            rw [List.forall_mem_cons]
            exact ⟨⟨b, hb⟩, hbefore⟩
          · cases h
      · rintro ⟨before, a, after, h, hbefore, ha⟩
        cases before with
        | nil =>
            obtain ⟨rfl, rfl⟩ := List.cons.inj h
            exact Or.inl ha
        | cons y before =>
            obtain ⟨rfl, rfl⟩ := List.cons.inj h
            obtain ⟨⟨b, hb⟩, hbefore⟩ := List.forall_mem_cons.mp hbefore
            refine Or.inr ⟨b, hb, ?_⟩
            exact bind_eq_error.mpr (Or.inl (ih.mpr ⟨before, a, after, rfl, hbefore, ha⟩))

end TensorText
