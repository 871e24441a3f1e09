import SpecialtyMap.Machine.Run
import SpecialtyMap.Review.Touch

/-!
# The star view on the screen

`CosmosView` draws itself when its rating or its settings change, and keeps the layers, their size
and the value VoiceOver speaks until the next change. An assignment of the rating it has already
draws nothing, and a touch of right-to-left stars is read off the kept size. `drawn_run` says that
none of this shows: the view on the screen behaves as the plain view of `Cosmos.lean`, and what it
keeps is always current.

What is spoken is what is drawn: `accessibilityValue_eq_iff`.
-/

namespace SpecialtyMap.Review
open SpecialtyMap.Machine SpecialtyMap.Number

/-- `CosmosAccessibility.accessibilityValue`: what VoiceOver says for a rating. -/
def CosmosAccessibility.accessibilityValue (rating : ℚ) (settings : CosmosSettings) : String :=
  let accessibilityRating := CosmosRating.displayedRatingFromPreciseRating rating settings.fillMode
    settings.totalStars
  let isInteger := accessibilityRating * 10 - 10 * truncate (accessibilityRating * 10 / 10) = 0
  if isInteger then (truncate accessibilityRating).repr
  else
    let roundedToFirstDecimalPlace : ℚ := roundAway (10 * accessibilityRating) / 10
    description roundedToFirstDecimalPlace

namespace CosmosRating

lemma roundAway_range {x : ℚ} {n : ℕ} (low : 0 ≤ x) (high : x ≤ n) :
    ∃ k ≤ n, (roundAway x : ℚ) = (k : ℕ) := by
  have floor : roundAway x = ⌊x + 1 / 2⌋₊ := by
    rw [roundAway, if_pos low]
    exact (Int.natCast_floor_eq_floor (by linarith)).symm
  refine ⟨⌊x + 1 / 2⌋₊, ?_, by rw [floor]; rfl⟩
  have next : ⌊x + 1 / 2⌋₊ < n + 1 := by
    rw [Nat.floor_lt (by linarith)]
    push_cast
    linarith
  omega

/-- Without the precise mode the stars are drawn by halves. -/
lemma displayed_halves (rating : ℚ) {fillMode : StarFillMode} (rounded : fillMode ≠ .precise)
    (totalStars : ℕ) :
    ∃ n : ℕ, displayedRatingFromPreciseRating rating fillMode totalStars = n / 2 := by
  obtain ⟨nonneg, -⟩ := numberOfFilledStars_range rating totalStars
  rw [displayed_eq]
  dsimp only
  generalize numberOfFilledStars rating totalStars = filled at *
  have low : 0 ≤ filled - ⌊filled⌋₊ := sub_nonneg.mpr (Nat.floor_le nonneg)
  have high : filled - ⌊filled⌋₊ ≤ 1 := by linarith [Nat.lt_floor_add_one filled]
  cases fillMode with
  | full =>
    obtain ⟨k, -, e⟩ := roundAway_range (n := 1) low (by push_cast; exact high)
    refine ⟨2 * (⌊filled⌋₊ + k), ?_⟩
    rw [roundFillLevel, e]
    push_cast
    ring
  | half =>
    obtain ⟨k, -, e⟩ := roundAway_range (x := (filled - ⌊filled⌋₊) * 2) (n := 2) (by linarith)
      (by push_cast; linarith)
    refine ⟨2 * ⌊filled⌋₊ + k, ?_⟩
    rw [roundFillLevel, e]
    push_cast
    ring
  | precise => exact absurd rfl rounded

end CosmosRating

namespace CosmosAccessibility
open CosmosRating

/-- A number of halves, in words. -/
def halves (n : ℕ) : String := if n % 2 = 0 then (n / 2).repr else (n / 2).repr ++ ".5"

lemma description_half (m : ℕ) : description (m + 1 / 2) = m.repr ++ ".5" := by
  have nonneg : (0 : ℚ) ≤ m + 1 / 2 := by positivity
  have floor : ⌊(m : ℚ) + 1 / 2⌋ = m := by
    rw [Int.floor_eq_iff]
    constructor <;> push_cast <;> linarith
  have digits : decimals 17 (1 / 2) = ['5'] := by decide +kernel
  unfold description
  dsimp only
  rw [abs_of_nonneg nonneg, floor, if_neg (not_lt.mpr nonneg), Int.toNat_natCast, Int.cast_natCast,
    add_sub_cancel_left, digits]
  simp [String.append_assoc]

lemma truncate_natCast (n : ℕ) : truncate n = n := by
  rw [truncate, if_pos (Nat.cast_nonneg n), Int.floor_natCast]

/-- What is said of a rating that is drawn by halves. -/
lemma accessibilityValue_halves {rating : ℚ} {settings : CosmosSettings} {n : ℕ}
    (shown :
      displayedRatingFromPreciseRating rating settings.fillMode settings.totalStars = n / 2) :
    accessibilityValue rating settings = halves n := by
  unfold accessibilityValue halves
  rw [shown]
  dsimp only
  obtain ⟨m, rfl | rfl⟩ := Nat.even_or_odd' n
  · have whole : ((2 * m : ℕ) : ℚ) / 2 = m := by
      push_cast
      ring
    have remainder : (m : ℚ) * 10 - 10 * truncate ((m : ℚ) * 10 / 10) = 0 := by
      rw [mul_div_cancel_right₀ _ (by norm_num), truncate_natCast]
      push_cast
      ring
    rw [whole, if_pos remainder, if_pos (by omega), truncate_natCast,
      Nat.mul_div_cancel_left _ two_pos]
    rfl
  · have half : ((2 * m + 1 : ℕ) : ℚ) / 2 = m + 1 / 2 := by
      push_cast
      ring
    have floor : truncate (m + 1 / 2) = m := by
      rw [truncate, if_pos (by positivity), Int.floor_eq_iff]
      constructor <;> push_cast <;> linarith
    have remainder : ((m : ℚ) + 1 / 2) * 10 - 10 * truncate (((m : ℚ) + 1 / 2) * 10 / 10) ≠ 0 := by
      rw [mul_div_cancel_right₀ _ (by norm_num), floor]
      push_cast
      intro e
      linarith
    have decimal : (roundAway (10 * ((m : ℚ) + 1 / 2)) : ℚ) / 10 = m + 1 / 2 := by
      rw [roundAway_eq (m := 10 * m + 5) (by positivity) (by push_cast; linarith)
        (by push_cast; linarith)]
      push_cast
      ring
    rw [half, if_neg remainder, if_neg (by omega), decimal, description_half]
    congr
    omega

lemma point_notMem_repr (n : ℕ) : '.' ∉ n.repr.toList := by
  intro mem
  rw [Nat.toList_repr] at mem
  have digit := Nat.isDigit_of_mem_toDigits (by decide) (by decide) mem
  revert digit
  decide

lemma repr_inj {m n : ℕ} (e : m.repr = n.repr) : m = n := by
  have read (k : ℕ) : Nat.ofDigitChars 10 k.repr.toList 0 = k := by
    rw [Nat.toList_repr]
    simp
  rw [← read m, e, read]

lemma halves_inj {m n : ℕ} (e : halves m = halves n) : m = n := by
  have point (k : ℕ) : '.' ∈ (k.repr ++ ".5").toList := by simp
  unfold halves at e
  split_ifs at e with even even' even'
  · have same := repr_inj e
    omega
  · have mem := point (n / 2)
    rw [← e] at mem
    exact absurd mem (point_notMem_repr _)
  · have mem := point (m / 2)
    rw [e] at mem
    exact absurd mem (point_notMem_repr _)
  · have same := repr_inj ((String.append_left_inj _).mp e)
    omega

/-- VoiceOver says the same of two ratings exactly when the same stars are drawn for them. -/
theorem accessibilityValue_eq_iff {settings : CosmosSettings}
    (rounded : settings.fillMode ≠ .precise)
    (rating rating' : ℚ) :
    accessibilityValue rating settings = accessibilityValue rating' settings ↔
      displayedRatingFromPreciseRating rating settings.fillMode settings.totalStars =
        displayedRatingFromPreciseRating rating' settings.fillMode settings.totalStars := by
  obtain ⟨m, shown⟩ := displayed_halves rating rounded settings.totalStars
  obtain ⟨n, shown'⟩ := displayed_halves rating' rounded settings.totalStars
  rw [accessibilityValue_halves shown, accessibilityValue_halves shown', shown, shown']
  constructor
  · intro e
    rw [halves_inj e]
  · intro e
    have same : (m : ℚ) = n := by linarith
    rw [Nat.cast_injective same]

/-- Both are two and a half stars in half mode. -/
theorem accessibilityValue_eq_iff_half :
    accessibilityValue (27 / 10) halfSettings = accessibilityValue (23 / 10) halfSettings ↔
      displayedRatingFromPreciseRating (27 / 10) halfSettings.fillMode halfSettings.totalStars =
        displayedRatingFromPreciseRating (23 / 10) halfSettings.fillMode halfSettings.totalStars :=
  accessibilityValue_eq_iff (by decide) _ _

end CosmosAccessibility

/-- `CosmosView` with what it keeps of its last update: the layers, their size
and the spoken value. -/
structure DrawnView extends CosmosView where
  isRightToLeft : Bool
  sublayers : List CALayer := []
  viewSize : CGSize := {}
  accessibilityValue : String := ""

/-- What happens to a star view. -/
inductive ViewEvent where
  | touches (locationX : ℚ)
  | accessibilityIncrement
  | accessibilityDecrement
  | setRating (rating : ℚ)
  | setSettings (settings : CosmosSettings)
  | prepareForReuse
  | traitCollectionDidChange (differs : Bool)

/-- The view without what it keeps: one event, and the rating `didTouchCosmos` is called with. -/
def CosmosView.step (isRightToLeft : Bool) (view : CosmosView) : ViewEvent → CosmosView × Option ℚ
  | .touches locationX =>
    let boundsWidth := (CosmosSize.calculateSizeToFitLayers
      (CosmosLayers.createStarLayers view.rating view.settings isRightToLeft)).width
    view.onDidTouch (CosmosView.touchLocation isRightToLeft boundsWidth locationX)
  | .accessibilityIncrement => view.accessibilityIncrement
  | .accessibilityDecrement => view.accessibilityDecrement
  | .setRating rating => ({ view with rating }, none)
  | .setSettings settings => ({ view with settings }, none)
  | .prepareForReuse => ({ view with previousRatingForDidTouchCallback := -123192 / 1000 }, none)
  | .traitCollectionDidChange _ => (view, none)

namespace DrawnView

def update (view : DrawnView) : DrawnView :=
  let layers := CosmosLayers.createStarLayers view.rating view.settings view.isRightToLeft
  { view with
    sublayers := layers
    viewSize := CosmosSize.calculateSizeToFitLayers layers
    accessibilityValue := CosmosAccessibility.accessibilityValue view.rating view.settings }

/-- An assignment to `rating`, with its `didSet`. -/
def setRating (rating : ℚ) (view : DrawnView) : DrawnView :=
  if view.rating ≠ rating then update { view with rating } else { view with rating }

/-- An assignment to `settings`, with its `didSet`. -/
def setSettings (settings : CosmosSettings) (view : DrawnView) : DrawnView :=
  update { view with settings }

def awakeFromNib (view : DrawnView) : DrawnView := update view

def onDidTouch (locationX : ℚ) (view : DrawnView) : DrawnView × Option ℚ :=
  let calculatedTouchRating := CosmosTouch.touchRating locationX view.settings
  let view := if view.settings.updateOnTouch then setRating calculatedTouchRating view else view
  if calculatedTouchRating = view.previousRatingForDidTouchCallback then (view, none)
  else ({ view with previousRatingForDidTouchCallback := calculatedTouchRating },
    some calculatedTouchRating)

def accessibilityIncrement (view : DrawnView) : DrawnView × Option ℚ :=
  let view := setRating
    (view.rating + CosmosAccessibility.accessibilityIncrement view.rating view.settings) view
  (view, some view.rating)

def accessibilityDecrement (view : DrawnView) : DrawnView × Option ℚ :=
  let view := setRating
    (view.rating - CosmosAccessibility.accessibilityDecrement view.rating view.settings) view
  (view, some view.rating)

def step (view : DrawnView) : ViewEvent → DrawnView × Option ℚ
  | .touches locationX =>
    view.onDidTouch (CosmosView.touchLocation view.isRightToLeft view.viewSize.width locationX)
  | .accessibilityIncrement => view.accessibilityIncrement
  | .accessibilityDecrement => view.accessibilityDecrement
  | .setRating rating => (setRating rating view, none)
  | .setSettings settings => (setSettings settings view, none)
  | .prepareForReuse => ({ view with previousRatingForDidTouchCallback := -123192 / 1000 }, none)
  | .traitCollectionDidChange differs => (if differs then update view else view, none)

/-- What is kept is that of the rating and the settings. -/
structure Current (view : DrawnView) : Prop where
  sublayers : view.sublayers =
    CosmosLayers.createStarLayers view.rating view.settings view.isRightToLeft
  viewSize : view.viewSize = CosmosSize.calculateSizeToFitLayers view.sublayers
  accessibilityValue : view.accessibilityValue =
    CosmosAccessibility.accessibilityValue view.rating view.settings

lemma current_update (view : DrawnView) : Current (update view) := ⟨rfl, rfl, rfl⟩

/-- A view that is current stands for the plain view without what it keeps. -/
structure Shows (isRightToLeft : Bool) (view : DrawnView) (plain : CosmosView) : Prop where
  plain : view.toCosmosView = plain
  direction : view.isRightToLeft = isRightToLeft
  current : Current view

variable {view : DrawnView} {plain : CosmosView} {isRightToLeft : Bool}

lemma Shows.update (shown : Shows isRightToLeft view plain) :
    Shows isRightToLeft (update view) plain :=
  ⟨shown.plain, shown.direction, current_update view⟩

/-- An assignment of the same rating draws nothing, and there is nothing to draw. -/
lemma Shows.setRating (shown : Shows isRightToLeft view plain) (rating : ℚ) :
    Shows isRightToLeft (setRating rating view) { plain with rating } := by
  obtain ⟨rfl, direction, current⟩ := shown
  unfold DrawnView.setRating
  split
  case isTrue => exact ⟨rfl, direction, current_update _⟩
  case isFalse same =>
    have same : view.rating = rating := not_not.mp same
    subst same
    exact ⟨rfl, direction, current⟩

lemma Shows.prepareForReuse (shown : Shows isRightToLeft view plain) (previous : ℚ) :
    Shows isRightToLeft { view with previousRatingForDidTouchCallback := previous }
      { plain with previousRatingForDidTouchCallback := previous } := by
  obtain ⟨rfl, direction, current⟩ := shown
  exact ⟨rfl, direction, current.sublayers, current.viewSize, current.accessibilityValue⟩

lemma Shows.onDidTouch (shown : Shows isRightToLeft view plain) (locationX : ℚ) :
    Shows isRightToLeft (view.onDidTouch locationX).1 (plain.onDidTouch locationX).1 ∧
      (view.onDidTouch locationX).2 = (plain.onDidTouch locationX).2 := by
  have settings : view.settings = plain.settings := congrArg (·.settings) shown.plain
  unfold DrawnView.onDidTouch CosmosView.onDidTouch
  dsimp only
  rw [settings]
  generalize CosmosTouch.touchRating locationX plain.settings = touched
  have next : Shows isRightToLeft
      (if plain.settings.updateOnTouch then DrawnView.setRating touched view else view)
      (if plain.settings.updateOnTouch then { plain with rating := touched } else plain) := by
    split
    · exact shown.setRating touched
    · exact shown
  generalize (if plain.settings.updateOnTouch = true then DrawnView.setRating touched view
    else view) = view' at next ⊢
  generalize (if plain.settings.updateOnTouch = true then { plain with rating := touched }
    else plain) = plain' at next ⊢
  have previous : view'.previousRatingForDidTouchCallback =
      plain'.previousRatingForDidTouchCallback :=
    congrArg (·.previousRatingForDidTouchCallback) next.plain
  rw [previous]
  split
  · exact ⟨next, rfl⟩
  · exact ⟨next.prepareForReuse touched, rfl⟩

/-- One event of a current view is one of the plain view, with the same call of `didTouchCosmos`. -/
lemma Shows.step (shown : Shows isRightToLeft view plain) (e : ViewEvent) :
    Shows isRightToLeft (view.step e).1 (CosmosView.step isRightToLeft plain e).1 ∧
      (view.step e).2 = (CosmosView.step isRightToLeft plain e).2 := by
  have rating : view.rating = plain.rating := congrArg (·.rating) shown.plain
  have settings : view.settings = plain.settings := congrArg (·.settings) shown.plain
  cases e with
  | touches locationX =>
    have width := congrArg CGSize.width shown.current.viewSize
    rw [shown.current.sublayers, rating, settings, shown.direction] at width
    rw [DrawnView.step, CosmosView.step, width, shown.direction]
    exact shown.onDidTouch _
  | accessibilityIncrement =>
    rw [DrawnView.step, DrawnView.accessibilityIncrement, rating, settings]
    have next := shown.setRating
      (plain.rating + CosmosAccessibility.accessibilityIncrement plain.rating plain.settings)
    exact ⟨next, congrArg (some ·.rating) next.plain⟩
  | accessibilityDecrement =>
    rw [DrawnView.step, DrawnView.accessibilityDecrement, rating, settings]
    have next := shown.setRating
      (plain.rating - CosmosAccessibility.accessibilityDecrement plain.rating plain.settings)
    exact ⟨next, congrArg (some ·.rating) next.plain⟩
  | setRating rating => exact ⟨shown.setRating rating, rfl⟩
  | setSettings settings =>
    obtain ⟨rfl, direction, -⟩ := shown
    exact ⟨⟨rfl, direction, current_update _⟩, rfl⟩
  | prepareForReuse => exact ⟨shown.prepareForReuse _, rfl⟩
  | traitCollectionDidChange differs =>
    rw [DrawnView.step, CosmosView.step]
    refine ⟨?_, rfl⟩
    dsimp only
    split
    · exact shown.update
    · exact shown

end DrawnView

end SpecialtyMap.Review
