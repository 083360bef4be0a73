/-
Positions tell indices apart.

A position is reached by reading on, and each character that is read moves it forward:
to the next line, or further along the same one.  So the positions of a buffer's
characters, and of the terminator behind them, are strictly increasing, and a reported
position stands for one index only.
-/
import TensorText.Position

namespace TensorText

theorem getElem?_append_length {α : Type} (u r : List α) : (u ++ r)[u.length]? = r.head? := by
  rw [List.getElem?_append_right (Nat.le_refl _), Nat.sub_self, List.head?_eq_getElem?]

namespace Position

/-- Positions are ordered by line, and within a line by column. -/
instance : LT Position where
  lt p q := p.line < q.line ∨ p.line = q.line ∧ p.column < q.column

theorem lt_def {p q : Position} :
    p < q ↔ p.line < q.line ∨ p.line = q.line ∧ p.column < q.column := Iff.rfl

theorem lt_irrefl (p : Position) : ¬p < p := by
  rw [lt_def]
  omega

theorem lt_trans {p q r : Position} (hpq : p < q) (hqr : q < r) : p < r := by
  rw [lt_def] at hpq hqr ⊢
  omega

theorem lt_advance (p : Position) (c : Char) : p < p.advance c := by
  rw [lt_def, advance]
  split
  · exact Or.inl (Nat.lt_succ_self _)
  · exact Or.inr ⟨rfl, Nat.lt_succ_self _⟩

/-- What follows index `i` of a text is of no account for the position there, apart from
the character itself. -/
theorem ofIndex_append (u r : List Char) :
    ofIndex (u ++ r) u.length = (after u).advance (r.head?.getD '\x00') := by
  rw [ofIndex, List.take_left, getElem?_append_length]

/-- The position of a character is the one reached by reading it. -/
theorem ofIndex_eq_after {b : List Char} {i : Nat} (hi : i < b.length) :
    ofIndex b i = after (b.take (i + 1)) := by
  rw [ofIndex, List.take_add_one, List.getElem?_eq_getElem hi, Option.getD_some,
    Option.toList_some, after, after, List.foldl_append, List.foldl_cons, List.foldl_nil]

theorem ofIndex_lt_succ {b : List Char} {i : Nat} (hi : i < b.length) :
    ofIndex b i < ofIndex b (i + 1) := by
  rw [ofIndex_eq_after hi]
  exact lt_advance _ _

/-- **Positions are strictly increasing along a text and its terminator.** -/
theorem ofIndex_lt {b : List Char} {i j : Nat} (hij : i < j) (hj : j ≤ b.length) :
    ofIndex b i < ofIndex b j := by
  induction j with
  | zero => omega
  | succ j ih =>
      have hstep : ofIndex b j < ofIndex b (j + 1) := ofIndex_lt_succ hj
      rcases Nat.lt_succ_iff_lt_or_eq.mp hij with hlt | rfl
      · exact lt_trans (ih hlt (by omega)) hstep
      · exact hstep

theorem ofIndex_inj {b : List Char} {i j : Nat} (hi : i ≤ b.length) (hj : j ≤ b.length)
    (h : ofIndex b i = ofIndex b j) : i = j := by
  rcases Nat.lt_trichotomy i j with hij | hij | hij
  · have hlt := ofIndex_lt hij hj
    rw [h] at hlt
    exact absurd hlt (lt_irrefl _)
  · exact hij
  · have hlt := ofIndex_lt hij hi
    rw [h] at hlt
    exact absurd hlt (lt_irrefl _)

end Position

end TensorText
