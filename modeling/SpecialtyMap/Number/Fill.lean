import Mathlib.Algebra.BigOperators.Intervals
import Mathlib.Algebra.Order.Ring.Cast
import Mathlib.Tactic.Linarith

/-!
# Filling boxes

Boxes of size one in a row are filled from the left by an amount `x`: box `i` holds what is left of
the amount after the boxes before it, cut to the size of a box. The boxes together hold the amount,
cut to their number (`sum_fill`), and an amount of `k` whole boxes and a rest fills the first `k`,
leaves the rest in the next and nothing in the others (`fill_split`).
-/

namespace SpecialtyMap.Number

section
variable {α : Type*} [CommRing α] [LinearOrder α] [IsStrictOrderedRing α]

/-- What box `i` holds of an amount. -/
def fill (x : α) (i : ℕ) : α := max 0 (min 1 (x - i))

lemma fill_full {x : α} {i : ℕ} (above : (i : α) + 1 ≤ x) : fill x i = 1 := by
  have rest : 1 ≤ x - i := by linarith
  rw [fill, min_eq_left rest, max_eq_right zero_le_one]

lemma fill_empty {x : α} {i : ℕ} (below : x ≤ i) : fill x i = 0 := by
  have rest : x - i ≤ 0 := by linarith
  rw [fill, min_eq_right (by linarith), max_eq_left rest]

lemma fill_within {x : α} {i : ℕ} (low : (i : α) ≤ x) (high : x ≤ i + 1) : fill x i = x - i := by
  rw [fill, min_eq_right (by linarith), max_eq_right (by linarith)]

lemma fill_le_one {x : α} {i : ℕ} : fill x i ≤ 1 := max_le zero_le_one (min_le_left _ _)

lemma fill_split {t : α} (low : 0 ≤ t) (high : t ≤ 1) (k i : ℕ) :
    fill (k + t) i = if i < k then 1 else if i = k then t else 0 := by
  rcases lt_trichotomy i k with before | rfl | after
  · have le : (i : α) + 1 ≤ k := by exact_mod_cast before
    rw [if_pos before, fill_full (by linarith)]
  · rw [if_neg (lt_irrefl i), if_pos rfl, fill_within (by linarith) (by linarith)]
    exact add_sub_cancel_left _ _
  · have le : (k : α) + 1 ≤ i := by exact_mod_cast after
    rw [if_neg (by omega), if_neg (by omega), fill_empty (by linarith)]

/-- The first `n` boxes hold the amount, cut to `n`. -/
lemma sum_fill (x : α) (n : ℕ) : ∑ i ∈ Finset.range n, fill x i = max 0 (min (n : α) x) := by
  induction n with
  | zero => rw [Finset.sum_range_zero, Nat.cast_zero, max_eq_left (min_le_left 0 x)]
  | succ n ih =>
    have pos : (0 : α) ≤ n := Nat.cast_nonneg n
    rw [Finset.sum_range_succ, ih, Nat.cast_succ]
    -- the boxes before are full unless the amount ends in them
    rcases le_total x n with below | above
    · rw [fill_empty below, min_eq_right below, min_eq_right (by linarith), add_zero]
    · rw [min_eq_left above, max_eq_right pos]
      rcases le_total x (n + 1) with within | beyond
      · rw [fill_within above within, min_eq_right within, max_eq_right (by linarith)]
        exact add_sub_cancel _ _
      · rw [fill_full beyond, min_eq_left beyond, max_eq_right (by linarith)]

end

end SpecialtyMap.Number
