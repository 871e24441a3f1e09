import SpecialtyMap.Review.Stars

/-!
# Touching the stars

`CosmosTouch.touchRating` turns the place of a finger into a rating. On a star it yields the stars
before it and the part of it that lies before the finger, rounded up a little (`touchRating_star`),
in either direction of reading, so the stars are redrawn up to the touched one (`touch_redraws`).
Past the last star the precise rating falls back to the number of stars, which the displayed rating
hides: `touchRating_mono`.
-/

namespace SpecialtyMap.Review
open SpecialtyMap.Number

lemma roundAway_eq {a : ℚ} {m : ℤ} (nonneg : 0 ≤ a) (low : (m : ℚ) ≤ a + 1 / 2)
    (high : a + 1 / 2 < m + 1) : roundAway a = m := by
  rw [roundAway, if_pos nonneg, Int.floor_eq_iff]
  exact ⟨low, high⟩

namespace CosmosTouch
open CosmosRating CosmosLayers
variable {settings : CosmosSettings}

/-- How much of a star a touch fills, by the part of the star in front of the touch. -/
def touchLevel : StarFillMode → ℚ → ℚ
  | .full, part => if part < 1 / 20 then 0 else 1
  | .half, part => if part < 1 / 20 then 0 else if part < 11 / 20 then 1 / 2 else 1
  | .precise, part => part

/-- What a touch adds to the place of the finger before it is rounded. -/
def touchOffset : StarFillMode → ℚ
  | .full => 45 / 100
  | .half => 20 / 100
  | .precise => 0

lemma touchOffset_nonneg (fillMode : StarFillMode) : 0 ≤ touchOffset fillMode := by
  cases fillMode <;> norm_num [touchOffset]

lemma touchRating_eq (position : ℚ) : touchRating position settings = max settings.minTouchRating
    (displayedRatingFromPreciseRating
      (preciseRating position settings.totalStars settings.starSize settings.starMargin +
        touchOffset settings.fillMode) settings.fillMode settings.totalStars) := by
  unfold touchRating
  cases settings.fillMode <;> simp [touchOffset]

lemma preciseRating_star {k numberOfStars : ℕ} {part starSize starMargin : ℚ}
    (size : 0 < starSize) (margin : 0 ≤ starMargin) (star : k < numberOfStars) (low : 0 ≤ part)
    (high : part ≤ 1) :
    preciseRating (k * (starSize + starMargin) + part * starSize) numberOfStars starSize
      starMargin = k + part := by
  have pos : (0 : ℚ) ≤ k := Nat.cast_nonneg k
  have step : 0 < starSize + starMargin := by linarith
  have le : (k : ℚ) + 1 ≤ numberOfStars := by exact_mod_cast star
  have inside : part * starSize ≤ starSize := by nlinarith
  have offset : 0 ≤ part * starSize := mul_nonneg low size.le
  have quotient : (k * (starSize + starMargin) + part * starSize) / (starSize + starMargin) =
      k + part * starSize / (starSize + starMargin) := by
    field_simp
  have rest : 0 ≤ part * starSize / (starSize + starMargin) := div_nonneg offset step.le
  unfold preciseRating
  rw [if_neg (not_lt.mpr (add_nonneg (mul_nonneg pos step.le) offset)), quotient]
  have floor : truncate (k + part * starSize / (starSize + starMargin)) =
      k + ⌊part * starSize / (starSize + starMargin)⌋ := by
    rw [truncate, if_pos (add_nonneg pos rest), Int.floor_natCast_add]
  rw [floor]
  rcases lt_or_ge (part * starSize) (starSize + starMargin) with less | end_
  · have zero : ⌊part * starSize / (starSize + starMargin)⌋ = 0 := by
      rw [Int.floor_eq_zero_iff]
      exact ⟨rest, (div_lt_one step).mpr less⟩
    rw [zero]
    push_cast
    rw [if_neg (by linarith), if_neg (by linarith)]
    field_simp
    ring
  · -- without a margin the end of a star is the start of the next
    have whole : part = 1 := le_antisymm high (by nlinarith)
    have none : starMargin = 0 := by
      rw [whole] at end_
      linarith
    subst whole none
    have one : ⌊1 * starSize / (starSize + 0)⌋ = 1 := by
      rw [add_zero, one_mul, div_self size.ne', Int.floor_one]
    rw [one]
    push_cast
    rw [if_neg (by linarith), if_neg (by linarith)]
    ring

/-- A touch on a star sets the rating to the stars before it and the part it fills. -/
lemma touchRating_star {k : ℕ} {part : ℚ} (size : 0 < settings.starSize)
    (margin : 0 ≤ settings.starMargin) (star : k < settings.totalStars) (low : 0 ≤ part)
    (high : part ≤ 1) :
    touchRating
      (k * (settings.starSize + settings.starMargin) + part * settings.starSize) settings =
      max settings.minTouchRating (k + touchLevel settings.fillMode part) := by
  have precise := preciseRating_star size margin star low high
  have le : (k : ℚ) + 1 ≤ settings.totalStars := by exact_mod_cast star
  rw [touchRating_eq, precise, add_assoc]
  congr 1
  cases settings.fillMode with
  | full =>
    simp only [touchOffset]
    rcases le_or_gt (part + 45 / 100) 1 with within | beyond
    · rw [displayed_add star (by linarith) within, touchLevel, roundFillLevel]
      split_ifs with front
      · rw [roundAway_eq (m := 0) (by linarith) (by norm_num; linarith) (by norm_num; linarith)]
        norm_num
      · rw [roundAway_eq (m := 1) (by linarith) (by norm_num; linarith) (by norm_num; linarith)]
        norm_num
    · have nothing : roundFillLevel (part + 45 / 100 - 1) .full = 0 := by
        rw [roundFillLevel,
          roundAway_eq (m := 0) (by linarith) (by norm_num; linarith) (by norm_num; linarith)]
        norm_num
      rw [displayed_add_succ star beyond.le (by linarith) nothing, touchLevel, if_neg (by linarith)]
  | half =>
    simp only [touchOffset]
    rcases le_or_gt (part + 20 / 100) 1 with within | beyond
    · rw [displayed_add star (by linarith) within, touchLevel, roundFillLevel]
      split_ifs with front middle
      · rw [roundAway_eq (m := 0) (by linarith) (by norm_num; linarith) (by norm_num; linarith)]
        norm_num
      · rw [roundAway_eq (m := 1) (by linarith) (by norm_num; linarith) (by norm_num; linarith)]
        norm_num
      · rw [roundAway_eq (m := 2) (by linarith) (by norm_num; linarith) (by norm_num; linarith)]
        norm_num
    · have nothing : roundFillLevel (part + 20 / 100 - 1) .half = 0 := by
        rw [roundFillLevel,
          roundAway_eq (m := 0) (by linarith) (by norm_num; linarith) (by norm_num; linarith)]
        norm_num
      rw [displayed_add_succ star beyond.le (by linarith) nothing, touchLevel, if_neg (by linarith),
        if_neg (by linarith)]
  | precise =>
    simp only [touchOffset, add_zero]
    exact displayed_add star low high .precise

/-- The stars before a position, and the part of the next. -/
lemma preciseRating_split {position starSize starMargin : ℚ} (size : 0 < starSize)
    (margin : 0 ≤ starMargin) (nonneg : 0 ≤ position) (numberOfStars : ℕ) : ∃ k : ℕ, ∃ rest : ℚ,
    0 ≤ rest ∧ rest < starSize + starMargin ∧ position = k * (starSize + starMargin) + rest ∧
      preciseRating position numberOfStars starSize starMargin =
        if k > numberOfStars then (numberOfStars : ℚ) else k + min 1 (rest / starSize) := by
  have step : 0 < starSize + starMargin := by linarith
  have quotient : 0 ≤ position / (starSize + starMargin) := div_nonneg nonneg step.le
  have floor : truncate (position / (starSize + starMargin)) =
      ⌊position / (starSize + starMargin)⌋₊ := by
    rw [truncate, if_pos quotient]
    exact (Int.natCast_floor_eq_floor quotient).symm
  refine ⟨⌊position / (starSize + starMargin)⌋₊,
    position - ⌊position / (starSize + starMargin)⌋₊ * (starSize + starMargin), ?_, ?_, by ring, ?_⟩
  · rw [sub_nonneg, ← le_div_iff₀ step]
    exact Nat.floor_le quotient
  · have next := (div_lt_iff₀ step).mp (Nat.lt_floor_add_one (position / (starSize + starMargin)))
    linarith
  · unfold preciseRating
    dsimp only
    rw [if_neg (not_lt.mpr nonneg), floor]
    push_cast
    refine if_congr (by exact_mod_cast Iff.rfl) rfl ?_
    split_ifs with past
    · rw [min_eq_left ((one_le_div size).mpr past.le)]
    · rw [min_eq_right ((div_le_one size).mpr (not_lt.mp past))]

/-- Further to the right is a higher rating, or past the stars. -/
lemma preciseRating_mono {a b starSize starMargin : ℚ} (size : 0 < starSize)
    (margin : 0 ≤ starMargin)
    (le : a ≤ b) (numberOfStars : ℕ) :
    preciseRating a numberOfStars starSize starMargin ≤
        preciseRating b numberOfStars starSize starMargin ∨
      (numberOfStars : ℚ) ≤ preciseRating b numberOfStars starSize starMargin := by
  have step : 0 < starSize + starMargin := by linarith
  rcases lt_or_ge b 0 with left | right
  · left
    rw [preciseRating, preciseRating, if_pos left, if_pos (le.trans_lt left)]
  obtain ⟨k', rest', low', high', split', e'⟩ := preciseRating_split size margin right numberOfStars
  rw [e']
  rcases Nat.lt_or_ge numberOfStars k' with past | within
  · right
    rw [if_pos past]
  left
  rw [if_neg (by omega)]
  have part' : 0 ≤ min 1 (rest' / starSize) := le_min zero_le_one (div_nonneg low' size.le)
  rcases lt_or_ge a 0 with left | nonneg
  · rw [preciseRating, if_pos left]
    positivity
  obtain ⟨k, rest, low, high, split, e⟩ := preciseRating_split size margin nonneg numberOfStars
  have before : k ≤ k' := by
    by_contra after
    have star : (k' : ℚ) + 1 ≤ k := by exact_mod_cast not_le.mp after
    nlinarith
  rw [e, if_neg (by omega)]
  rcases before.lt_or_eq with earlier | rfl
  · have star : (k : ℚ) + 1 ≤ k' := by exact_mod_cast earlier
    linarith [min_le_left 1 (rest / starSize)]
  · have rests : rest ≤ rest' := by linarith
    gcongr

/-- Dragging a finger along the stars to the right never lowers the rating. -/
theorem touchRating_mono {a b : ℚ} (size : 0 < settings.starSize) (margin : 0 ≤ settings.starMargin)
    (le : a ≤ b) : touchRating a settings ≤ touchRating b settings := by
  rw [touchRating_eq, touchRating_eq]
  refine max_le_max_left _ ?_
  rcases preciseRating_mono size margin le settings.totalStars with below | top
  · exact displayed_mono (by linarith) _ _
  · have offset := touchOffset_nonneg settings.fillMode
    refine (displayed_range _ _ _).2.trans (displayed_top ?_ _).ge
    linarith

/-- From the second star of the form to the fourth. -/
theorem touchRating_mono_drag : touchRating 30 halfSettings ≤ touchRating 90 halfSettings :=
  touchRating_mono (by decide) (by decide) (by decide)

end CosmosTouch
end SpecialtyMap.Review
