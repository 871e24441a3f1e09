import SpecialtyMap.Number.Decimal
import Mathlib.Tactic.Linarith
import Mathlib.Tactic.NormNum

/-!
# The star view

`CosmosView` of the vendored Cosmos library, with ratings as exact rationals. A rating changes in
two ways. A touch sets it to the displayed rating of the touched place, and calls back unless the
touch repeats the last touched value. A VoiceOver step adds or subtracts an amount rounded to one
decimal, and always calls back.

In half mode a touch yields exactly the half steps from one to five (`touchRating_iff`), and a
VoiceOver step takes a half step to a half step. From a rating that is not a half step it does not
lead to one, which is where the rating and the stars that are drawn part.
-/

namespace SpecialtyMap.Review
open SpecialtyMap.Number

inductive StarFillMode where
  | full
  | half
  | precise
deriving DecidableEq

/-- `CosmosSettings`, as far as ratings go, with the values of `CosmosDefaultSettings`. -/
structure CosmosSettings where
  fillMode : StarFillMode := .full
  starMargin : ℚ := 5
  starSize : ℚ := 20
  totalStars : ℕ := 5
  minTouchRating : ℚ := 1
  updateOnTouch : Bool := true

namespace CosmosRating

def roundFillLevel (starFillLevel : ℚ) : StarFillMode → ℚ
  | .full => roundAway starFillLevel
  | .half => roundAway (starFillLevel * 2) / 2
  | .precise => starFillLevel

def starFillLevel (ratingRemainder : ℚ) (fillMode : StarFillMode) : ℚ :=
  let result := ratingRemainder
  let result := if result > 1 then 1 else result
  let result := if result < 0 then 0 else result
  roundFillLevel result fillMode

def displayedRatingFromPreciseRating (preciseRating : ℚ) (fillMode : StarFillMode)
    (totalStars : ℕ) : ℚ :=
  let starFloorNumber : ℚ := ⌊preciseRating⌋
  let singleStarRemainder := preciseRating - starFloorNumber
  let displayedRating := starFloorNumber + starFillLevel singleStarRemainder fillMode
  let displayedRating := min (totalStars : ℚ) displayedRating
  max 0 displayedRating

end CosmosRating

namespace CosmosTouch
open CosmosRating

def preciseRating (position : ℚ) (numberOfStars : ℕ) (starSize starMargin : ℚ) : ℚ :=
  if position < 0 then 0
  else
    let rating := truncate (position / (starSize + starMargin))
    if rating > numberOfStars then numberOfStars
    else
      let positionRemainder := position - rating * (starSize + starMargin)
      if positionRemainder > starSize then rating + 1 else rating + positionRemainder / starSize

def touchRating (position : ℚ) (settings : CosmosSettings) : ℚ :=
  let rating := preciseRating position settings.totalStars settings.starSize settings.starMargin
  let rating := if settings.fillMode = .half then rating + 20 / 100 else rating
  let rating := if settings.fillMode = .full then rating + 45 / 100 else rating
  let rating := displayedRatingFromPreciseRating rating settings.fillMode settings.totalStars
  max settings.minTouchRating rating

end CosmosTouch

namespace CosmosAccessibility

def accessibilityIncrement (rating : ℚ) (settings : CosmosSettings) : ℚ :=
  let increment : ℚ :=
    match settings.fillMode with
    | .full => ⌈rating⌉ - rating
    | .half | .precise => (⌈rating * 2⌉ - rating * 2) / 2
  let whole : ℚ :=
    match settings.fillMode with
    | .full => 1
    | .half | .precise => 1 / 2
  let increment := if increment = 0 then whole else increment
  let increment := if rating ≥ settings.totalStars then 0 else increment
  roundAway (10 * increment) / 10

def accessibilityDecrement (rating : ℚ) (settings : CosmosSettings) : ℚ :=
  let increment : ℚ :=
    match settings.fillMode with
    | .full => rating - ⌊rating⌋
    | .half | .precise => (rating * 2 - ⌊rating * 2⌋) / 2
  let whole : ℚ :=
    match settings.fillMode with
    | .full => 1
    | .half | .precise => 1 / 2
  let increment := if increment = 0 then whole else increment
  let increment := if rating ≤ settings.minTouchRating then 0 else increment
  roundAway (10 * increment) / 10

end CosmosAccessibility

/-- `CosmosView`, with `CosmosDefaultSettings.rating`. -/
structure CosmosView where
  rating : ℚ := 2718281828 / 1000000000
  settings : CosmosSettings := {}
  previousRatingForDidTouchCallback : ℚ := -123192 / 1000

namespace CosmosView

/-- The rating the stars show. -/
def displayed (view : CosmosView) : ℚ :=
  CosmosRating.displayedRatingFromPreciseRating view.rating view.settings.fillMode
    view.settings.totalStars

/-- `onDidTouch`, and the rating `didTouchCosmos` is called with. -/
def onDidTouch (locationX : ℚ) (view : CosmosView) : CosmosView × Option ℚ :=
  let calculatedTouchRating := CosmosTouch.touchRating locationX view.settings
  let view :=
    if view.settings.updateOnTouch then { view with rating := calculatedTouchRating } else view
  if calculatedTouchRating = view.previousRatingForDidTouchCallback then (view, none)
  else ({ view with previousRatingForDidTouchCallback := calculatedTouchRating },
    some calculatedTouchRating)

/-- `accessibilityIncrement`, and the rating `didTouchCosmos` is called with. -/
def accessibilityIncrement (view : CosmosView) : CosmosView × Option ℚ :=
  let rating := view.rating + CosmosAccessibility.accessibilityIncrement view.rating view.settings
  ({ view with rating }, some rating)

/-- `accessibilityDecrement`, and the rating `didTouchCosmos` is called with. -/
def accessibilityDecrement (view : CosmosView) : CosmosView × Option ℚ :=
  let rating := view.rating - CosmosAccessibility.accessibilityDecrement view.rating view.settings
  ({ view with rating }, some rating)

end CosmosView

def halfSettings : CosmosSettings := { fillMode := .half }

/-- A half step from one to five. -/
def HalfStep (r : ℚ) : Prop := ∃ n : ℕ, 2 ≤ n ∧ n ≤ 10 ∧ r = n / 2

/-- A half-integer cut to the range of the stars is a half step from zero to five. -/
lemma clamp_half (m : ℤ) : ∃ n : ℕ, n ≤ 10 ∧ max 0 (min (5 : ℚ) (m / 2)) = n / 2 := by
  rcases lt_or_ge m 0 with neg | nonneg
  · have low : (m : ℚ) < 0 := by exact_mod_cast neg
    refine ⟨0, by omega, ?_⟩
    rw [min_eq_right (by linarith), max_eq_left (by linarith)]
    norm_num
  · rcases le_or_gt m 10 with inside | above
    · have low : (0 : ℚ) ≤ m := by exact_mod_cast nonneg
      have high : (m : ℚ) ≤ 10 := by exact_mod_cast inside
      have cast : ((m.toNat : ℕ) : ℚ) = m := by exact_mod_cast Int.toNat_of_nonneg nonneg
      refine ⟨m.toNat, by omega, ?_⟩
      rw [min_eq_right (by linarith), max_eq_right (by linarith), cast]
    · have high : (10 : ℚ) < m := by exact_mod_cast above
      refine ⟨10, le_refl _, ?_⟩
      rw [min_eq_left (by linarith), max_eq_right (by norm_num)]
      norm_num

/-- In half mode the stars show a half step from zero to five. -/
lemma displayed_half (x : ℚ) : ∃ n : ℕ, n ≤ 10 ∧
    CosmosRating.displayedRatingFromPreciseRating x .half 5 = n / 2 := by
  have fill (y : ℚ) : ∃ k : ℤ, CosmosRating.starFillLevel y .half = k / 2 := ⟨_, rfl⟩
  obtain ⟨k, level⟩ := fill (x - ⌊x⌋)
  -- floor and fill level together count half stars
  obtain ⟨n, bound, clamp⟩ := clamp_half (2 * ⌊x⌋ + k)
  refine ⟨n, bound, ?_⟩
  have sum : (⌊x⌋ : ℚ) + k / 2 = ((2 * ⌊x⌋ + k : ℤ) : ℚ) / 2 := by
    push_cast
    ring
  rw [CosmosRating.displayedRatingFromPreciseRating, level, sum, ← clamp]
  norm_num

lemma displayed_halfStep {r : ℚ} (half : HalfStep r) :
    CosmosRating.displayedRatingFromPreciseRating r .half 5 = r := by
  have steps : ∀ n : ℕ, n < 11 →
      CosmosRating.displayedRatingFromPreciseRating (n / 2) .half 5 = n / 2 := by
    decide +kernel
  obtain ⟨n, -, bound, rfl⟩ := half
  exact steps n (by omega)

lemma touchRating_half (locationX : ℚ) :
    HalfStep (CosmosTouch.touchRating locationX halfSettings) := by
  obtain ⟨n, bound, shown⟩ := displayed_half
    (CosmosTouch.preciseRating locationX 5 20 5 + 20 / 100)
  have touch : CosmosTouch.touchRating locationX halfSettings = max 1 ((n : ℚ) / 2) := by
    rw [← shown]
    rfl
  rw [touch]
  rcases lt_or_ge n 2 with low | high
  · have below : (n : ℚ) ≤ 2 := by exact_mod_cast low.le
    refine ⟨2, le_refl _, by omega, ?_⟩
    rw [max_eq_left (by linarith)]
    norm_num
  · have above : (2 : ℚ) ≤ n := by exact_mod_cast high
    exact ⟨n, high, bound, max_eq_right (by linarith)⟩

/-- The place in the stars that a touch reads as a number of half steps. -/
def touchPlace (n : ℕ) : ℚ := if n % 2 = 0 then 25 * (n / 2 - 1) + 16 else 25 * ((n - 1) / 2) + 6

/-- The touches in half mode yield the half steps from one to five. -/
theorem touchRating_iff (r : ℚ) :
    (∃ locationX, CosmosTouch.touchRating locationX halfSettings = r) ↔ HalfStep r := by
  constructor
  · rintro ⟨locationX, rfl⟩
    exact touchRating_half locationX
  · have places : ∀ n : ℕ, n < 11 → 2 ≤ n →
        CosmosTouch.touchRating (touchPlace n) halfSettings = n / 2 := by
      decide +kernel
    rintro ⟨n, low, high, rfl⟩
    exact ⟨touchPlace n, places n (by omega) low⟩

/-- A touch in half mode sets the rating and the last touched value, and calls back unless it
repeats that value. -/
lemma onDidTouch_half {view : CosmosView} (settings : view.settings = halfSettings)
    (locationX : ℚ) :
    let touched := CosmosTouch.touchRating locationX halfSettings
    view.onDidTouch locationX = (⟨touched, halfSettings, touched⟩,
      if touched = view.previousRatingForDidTouchCallback then none else some touched) := by
  obtain ⟨rating, _, previous⟩ := view
  subst settings
  have updates : halfSettings.updateOnTouch = true := rfl
  simp only [CosmosView.onDidTouch, updates, if_true]
  split
  case isTrue repeated => rw [repeated]
  case isFalse => rfl

lemma increment_half {n : ℕ} (high : n ≤ 10) : (n : ℚ) / 2 +
    CosmosAccessibility.accessibilityIncrement (n / 2) halfSettings = (min (n + 1) 10 : ℕ) / 2 := by
  have steps : ∀ n : ℕ, n < 11 → (n : ℚ) / 2 +
      CosmosAccessibility.accessibilityIncrement
        (n / 2) halfSettings = (min (n + 1) 10 : ℕ) / 2 := by
    decide +kernel
  exact steps n (by omega)

lemma decrement_half {n : ℕ} (low : 2 ≤ n) (high : n ≤ 10) : (n : ℚ) / 2 -
    CosmosAccessibility.accessibilityDecrement (n / 2) halfSettings = (max (n - 1) 2 : ℕ) / 2 := by
  have steps : ∀ n : ℕ, n < 11 → 2 ≤ n → (n : ℚ) / 2 -
      CosmosAccessibility.accessibilityDecrement
        (n / 2) halfSettings = (max (n - 1) 2 : ℕ) / 2 := by
    decide +kernel
  exact steps n (by omega) low

lemma increment_halfStep {r : ℚ} (half : HalfStep r) :
    HalfStep (r + CosmosAccessibility.accessibilityIncrement r halfSettings) := by
  obtain ⟨n, low, high, rfl⟩ := half
  exact ⟨min (n + 1) 10, by omega, by omega, increment_half high⟩

lemma decrement_halfStep {r : ℚ} (half : HalfStep r) :
    HalfStep (r - CosmosAccessibility.accessibilityDecrement r halfSettings) := by
  obtain ⟨n, low, high, rfl⟩ := half
  exact ⟨max (n - 1) 2, by omega, by omega, decrement_half low high⟩

end SpecialtyMap.Review
