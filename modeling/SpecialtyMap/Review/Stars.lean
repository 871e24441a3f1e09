import SpecialtyMap.Number.Fill
import SpecialtyMap.Review.Cosmos
import Mathlib.Algebra.BigOperators.Ring.Finset

/-!
# Drawing the stars

`CosmosLayers.createStarLayers` draws a rating as a row of star layers. It rounds star by star,
while `displayedRatingFromPreciseRating` rounds the rating as a whole. Both agree because only one
star of a row is cut: `roundFillLevel_fill` for the stars one by one, `displayed_eq` for the rating
as a whole, and `createStarLayers_draws` for the layers. Right-to-left rows are the same stars in
the opposite order.
-/

namespace SpecialtyMap.Review
open SpecialtyMap.Number

namespace CosmosRating

def numberOfFilledStars (rating : ℚ) (totalNumberOfStars : ℕ) : ℚ :=
  if rating > totalNumberOfStars then totalNumberOfStars
  else if rating < 0 then 0
  else rating

lemma roundFillLevel_mono {x y : ℚ} (nonneg : 0 ≤ x) (le : x ≤ y) (fillMode : StarFillMode) :
    roundFillLevel x fillMode ≤ roundFillLevel y fillMode := by
  have round {a b : ℚ} (nonneg : 0 ≤ a) (le : a ≤ b) : (roundAway a : ℚ) ≤ roundAway b := by
    rw [roundAway, roundAway, if_pos nonneg, if_pos (nonneg.trans le)]
    exact_mod_cast Int.floor_le_floor (by linarith)
  cases fillMode with
  | full => exact round nonneg le
  | half =>
    have twice := round (a := x * 2) (b := y * 2) (by linarith) (by linarith)
    simp only [roundFillLevel]
    linarith
  | precise => exact le

@[simp] lemma roundFillLevel_zero (fillMode : StarFillMode) : roundFillLevel 0 fillMode = 0 := by
  cases fillMode <;> decide +kernel

@[simp] lemma roundFillLevel_one (fillMode : StarFillMode) : roundFillLevel 1 fillMode = 1 := by
  cases fillMode <;> decide +kernel

lemma roundFillLevel_range {x : ℚ} (low : 0 ≤ x) (high : x ≤ 1) (fillMode : StarFillMode) :
    0 ≤ roundFillLevel x fillMode ∧ roundFillLevel x fillMode ≤ 1 := by
  constructor
  · rw [← roundFillLevel_zero fillMode]
    exact roundFillLevel_mono le_rfl low fillMode
  · rw [← roundFillLevel_one fillMode]
    exact roundFillLevel_mono low high fillMode

lemma starFillLevel_eq (x : ℚ) (fillMode : StarFillMode) :
    starFillLevel x fillMode = roundFillLevel (max 0 (min 1 x)) fillMode := by
  unfold starFillLevel
  dsimp only
  rcases le_or_gt x 1 with inside | above
  · rw [if_neg (not_lt.mpr inside), min_eq_right inside]
    rcases lt_or_ge x 0 with neg | nonneg
    · rw [if_pos neg, max_eq_left neg.le]
    · rw [if_neg (not_lt.mpr nonneg), max_eq_right nonneg]
  · rw [if_pos above, min_eq_left above.le, if_neg (by norm_num), max_eq_right zero_le_one]

/-- Rounding the stars one by one is rounding the last of them. -/
lemma roundFillLevel_fill {x : ℚ} (nonneg : 0 ≤ x) (fillMode : StarFillMode) (i : ℕ) :
    roundFillLevel (fill x i) fillMode =
      fill (⌊x⌋₊ + roundFillLevel (x - ⌊x⌋₊) fillMode) i := by
  have low : 0 ≤ x - ⌊x⌋₊ := sub_nonneg.mpr (Nat.floor_le nonneg)
  have high : x - ⌊x⌋₊ ≤ 1 := by linarith [Nat.lt_floor_add_one x]
  obtain ⟨low', high'⟩ := roundFillLevel_range low high fillMode
  have split := fill_split low high ⌊x⌋₊ i
  rw [add_sub_cancel] at split
  rw [split, fill_split low' high']
  split_ifs <;> simp

lemma numberOfFilledStars_range (rating : ℚ) (totalStars : ℕ) :
    0 ≤ numberOfFilledStars rating totalStars ∧
      numberOfFilledStars rating totalStars ≤ totalStars := by
  have pos : (0 : ℚ) ≤ totalStars := Nat.cast_nonneg totalStars
  unfold numberOfFilledStars
  split_ifs with above below
  · exact ⟨pos, le_rfl⟩
  · exact ⟨le_rfl, pos⟩
  · exact ⟨not_lt.mp below, not_lt.mp above⟩

/-- The displayed rating is that of the rating cut to the stars, with its last star rounded. -/
lemma displayed_eq (rating : ℚ) (fillMode : StarFillMode) (totalStars : ℕ) :
    displayedRatingFromPreciseRating rating fillMode totalStars =
      let filled := numberOfFilledStars rating totalStars
      ⌊filled⌋₊ + roundFillLevel (filled - ⌊filled⌋₊) fillMode := by
  have pos : (0 : ℚ) ≤ totalStars := Nat.cast_nonneg totalStars
  have low : 0 ≤ rating - ⌊rating⌋ := sub_nonneg.mpr (Int.floor_le rating)
  have high : rating - ⌊rating⌋ ≤ 1 := by linarith [Int.lt_floor_add_one rating]
  have inside : starFillLevel (rating - ⌊rating⌋) fillMode =
      roundFillLevel (rating - ⌊rating⌋) fillMode := by
    rw [starFillLevel_eq, min_eq_right high, max_eq_right low]
  obtain ⟨low', high'⟩ := roundFillLevel_range low high fillMode
  unfold displayedRatingFromPreciseRating numberOfFilledStars
  dsimp only
  rw [inside]
  split_ifs with above below
  · have floor : (totalStars : ℚ) ≤ ⌊rating⌋ := by
      exact_mod_cast Int.le_floor.mpr (by exact_mod_cast above.le)
    rw [min_eq_left (by linarith), max_eq_right pos]
    simp
  · have first : ⌊rating⌋ < 0 := Int.floor_lt.mpr (by exact_mod_cast below)
    have floor : (⌊rating⌋ : ℚ) ≤ -1 := by exact_mod_cast Int.le_sub_one_of_lt first
    rw [max_eq_left ((min_le_right _ _).trans (by linarith))]
    simp
  · have nonneg : 0 ≤ rating := not_lt.mp below
    have floor : (⌊rating⌋ : ℚ) = ⌊rating⌋₊ := (natCast_floor_eq_intCast_floor nonneg).symm
    rw [floor] at low' high' ⊢
    have first : (0 : ℚ) ≤ ⌊rating⌋₊ := Nat.cast_nonneg _
    rw [max_eq_right (le_min pos (by linarith)), min_eq_right]
    -- a rating below the number of stars has a star left for its rest
    rcases lt_or_ge rating totalStars with less | reached
    · have star : (⌊rating⌋₊ : ℚ) + 1 ≤ totalStars := by
        exact_mod_cast (Nat.floor_lt nonneg).mpr less
      linarith
    · have whole : rating = totalStars := le_antisymm (not_lt.mp above) reached
      rw [whole]
      simp

lemma displayed_mono {rating rating' : ℚ} (le : rating ≤ rating') (fillMode : StarFillMode)
    (totalStars : ℕ) : displayedRatingFromPreciseRating rating fillMode totalStars ≤
      displayedRatingFromPreciseRating rating' fillMode totalStars := by
  have fills : numberOfFilledStars rating totalStars ≤ numberOfFilledStars rating' totalStars := by
    have pos : (0 : ℚ) ≤ totalStars := Nat.cast_nonneg totalStars
    unfold numberOfFilledStars
    split_ifs <;> linarith
  obtain ⟨nonneg, -⟩ := numberOfFilledStars_range rating totalStars
  rw [displayed_eq, displayed_eq]
  dsimp only
  generalize numberOfFilledStars rating totalStars = x at *
  generalize numberOfFilledStars rating' totalStars = y at *
  have low : 0 ≤ x - ⌊x⌋₊ := sub_nonneg.mpr (Nat.floor_le nonneg)
  have low' : 0 ≤ y - ⌊y⌋₊ := sub_nonneg.mpr (Nat.floor_le (nonneg.trans fills))
  rcases (Nat.floor_le_floor fills).eq_or_lt with same | less
  · rw [same] at low ⊢
    exact add_le_add_right (roundFillLevel_mono low (by linarith) fillMode) _
  · have star : (⌊x⌋₊ : ℚ) + 1 ≤ ⌊y⌋₊ := by exact_mod_cast less
    have rest := (roundFillLevel_range low (by linarith [Nat.lt_floor_add_one x]) fillMode).2
    have rest' := (roundFillLevel_range low' (by linarith [Nat.lt_floor_add_one y]) fillMode).1
    linarith

lemma roundFillLevel_idem {x : ℚ} (nonneg : 0 ≤ x) (fillMode : StarFillMode) :
    roundFillLevel (roundFillLevel x fillMode) fillMode = roundFillLevel x fillMode := by
  have whole {a : ℚ} (nonneg : 0 ≤ a) : roundAway (roundAway a : ℚ) = roundAway a := by
    have pos : (0 : ℚ) ≤ roundAway a := by
      rw [roundAway, if_pos nonneg]
      exact_mod_cast Int.floor_nonneg.mpr (by linarith)
    rw [roundAway, if_pos pos, Int.floor_eq_iff]
    constructor <;> linarith
  cases fillMode with
  | full => exact congrArg (Int.cast : ℤ → ℚ) (whole nonneg)
  | half =>
    have twice := whole (a := x * 2) (by linarith)
    simp only [roundFillLevel]
    rw [div_mul_cancel₀ _ two_ne_zero, twice]
  | precise => rfl

lemma displayed_range (rating : ℚ) (fillMode : StarFillMode) (totalStars : ℕ) :
    0 ≤ displayedRatingFromPreciseRating rating fillMode totalStars ∧
      displayedRatingFromPreciseRating rating fillMode totalStars ≤ totalStars := by
  unfold displayedRatingFromPreciseRating
  exact ⟨le_max_left _ _, max_le (Nat.cast_nonneg _) (min_le_left _ _)⟩

lemma displayed_top {rating : ℚ} {totalStars : ℕ} (top : (totalStars : ℚ) ≤ rating)
    (fillMode : StarFillMode) :
    displayedRatingFromPreciseRating rating fillMode totalStars = totalStars := by
  have filled : numberOfFilledStars rating totalStars = totalStars := by
    have pos : (0 : ℚ) ≤ totalStars := Nat.cast_nonneg totalStars
    unfold numberOfFilledStars
    split_ifs <;> linarith
  rw [displayed_eq, filled]
  simp

/-- Whole stars and a part of the next one. -/
lemma displayed_add {k totalStars : ℕ} {part : ℚ} (star : k < totalStars) (low : 0 ≤ part)
    (high : part ≤ 1) (fillMode : StarFillMode) :
    displayedRatingFromPreciseRating (k + part) fillMode totalStars =
      k + roundFillLevel part fillMode := by
  have pos : (0 : ℚ) ≤ k := Nat.cast_nonneg k
  have le : (k : ℚ) + 1 ≤ totalStars := by exact_mod_cast star
  have filled : numberOfFilledStars (k + part) totalStars = k + part := by
    unfold numberOfFilledStars
    rw [if_neg (by linarith), if_neg (by linarith)]
  rw [displayed_eq, filled]
  dsimp only
  rcases high.lt_or_eq with less | rfl
  · have floor : ⌊(k : ℚ) + part⌋₊ = k :=
      (Nat.floor_eq_iff (by linarith)).mpr ⟨by linarith, by linarith⟩
    rw [floor, add_sub_cancel_left]
  · have floor : ⌊(k : ℚ) + 1⌋₊ = k + 1 := by exact_mod_cast Nat.floor_natCast (R := ℚ) (k + 1)
    rw [floor]
    push_cast
    rw [sub_self, roundFillLevel_zero, roundFillLevel_one, add_zero]

/-- A rest that rounds to nothing adds nothing to the stars before it. -/
lemma displayed_add_succ {k totalStars : ℕ} {part : ℚ} {fillMode : StarFillMode}
    (star : k < totalStars)
    (low : 1 ≤ part) (high : part ≤ 2) (nothing : roundFillLevel (part - 1) fillMode = 0) :
    displayedRatingFromPreciseRating (k + part) fillMode totalStars = k + 1 := by
  rcases (Nat.succ_le_of_lt star).lt_or_eq with next | last
  · have split : (k : ℚ) + part = (k + 1 : ℕ) + (part - 1) := by
      push_cast
      ring
    rw [split, displayed_add next (by linarith) (by linarith), nothing]
    push_cast
    ring
  · have whole : (totalStars : ℚ) = k + 1 := by exact_mod_cast last.symm
    rw [displayed_top (by linarith), whole]

lemma displayed_idem (rating : ℚ) (fillMode : StarFillMode) (totalStars : ℕ) :
    displayedRatingFromPreciseRating
      (displayedRatingFromPreciseRating rating fillMode totalStars) fillMode totalStars =
      displayedRatingFromPreciseRating rating fillMode totalStars := by
  obtain ⟨nonneg, le⟩ := numberOfFilledStars_range rating totalStars
  have range := displayed_range rating fillMode totalStars
  rcases le.lt_or_eq with less | whole
  · have star : ⌊numberOfFilledStars rating totalStars⌋₊ < totalStars :=
      (Nat.floor_lt nonneg).mpr less
    have low := sub_nonneg.mpr (Nat.floor_le nonneg)
    have high : numberOfFilledStars rating totalStars -
        ⌊numberOfFilledStars rating totalStars⌋₊ ≤ 1 := by
      linarith [Nat.lt_floor_add_one (numberOfFilledStars rating totalStars)]
    obtain ⟨low', high'⟩ := roundFillLevel_range low high fillMode
    rw [displayed_eq rating]
    dsimp only
    rw [displayed_add star low' high', roundFillLevel_idem low]
  · have top : displayedRatingFromPreciseRating rating fillMode totalStars = totalStars := by
      rw [displayed_eq, whole]
      simp
    rw [top, displayed_top le_rfl]

end CosmosRating

/-- What the layer of a star shows: one star, or a filled star cut to a width over an empty one. -/
inductive StarImage where
  | star (isFilled : Bool)
  | composite (filledWidth : ℚ) (flipped : Bool)
deriving DecidableEq

/-- `CALayer`, as far as the stars go: a square whose left edge stands at `positionX`. -/
structure CALayer where
  image : StarImage
  positionX : ℚ := 0
  size : ℚ
deriving DecidableEq

structure CGSize where
  width : ℚ := 0
  height : ℚ := 0
deriving DecidableEq

namespace CALayer

def maxX (layer : CALayer) : ℚ := layer.positionX + layer.size

def maxY (layer : CALayer) : ℚ := layer.size

/-- The width of the filled part. -/
def filledWidth (layer : CALayer) : ℚ :=
  match layer.image with
  | .star isFilled => if isFilled then layer.size else 0
  | .composite filledWidth _ => filledWidth

end CALayer

namespace CosmosLayers

def createStarLayer (isFilled : Bool) (settings : CosmosSettings) : CALayer where
  image := .star isFilled
  size := settings.starSize

def createPartialStar (starFillLevel : ℚ) (settings : CosmosSettings) (isRightToLeft : Bool) :
    CALayer where
  image := .composite (settings.starSize * starFillLevel) isRightToLeft
  size := settings.starSize

def createCompositeStarLayer (starFillLevel : ℚ) (settings : CosmosSettings)
    (isRightToLeft : Bool) :
    CALayer :=
  if starFillLevel ≥ 1 then createStarLayer true settings
  else if starFillLevel = 0 then createStarLayer false settings
  else createPartialStar starFillLevel settings isRightToLeft

/-- `positionStarLayers`, from the position of the first layer on. -/
def positionStarLayers (starMargin : ℚ) : ℚ → List CALayer → List CALayer
  | _, [] => []
  | positionX, layer :: layers =>
    { layer with positionX } :: positionStarLayers starMargin
    (positionX + layer.size + starMargin) layers

/-- The loop of `createStarLayers`, for a number of stars and what remains of the rating. -/
def createStarLayersLoop (settings : CosmosSettings) (isRightToLeft : Bool) : ℕ → ℚ → List CALayer
  | 0, _ => []
  | stars + 1, ratingRemander =>
    let fillLevel := CosmosRating.starFillLevel ratingRemander settings.fillMode
    createCompositeStarLayer fillLevel settings isRightToLeft ::
      createStarLayersLoop settings isRightToLeft stars (ratingRemander - 1)

def createStarLayers (rating : ℚ) (settings : CosmosSettings) (isRightToLeft : Bool) :
    List CALayer :=
  let ratingRemander := CosmosRating.numberOfFilledStars rating settings.totalStars
  let starLayers := createStarLayersLoop settings isRightToLeft settings.totalStars ratingRemander
  let starLayers := if isRightToLeft then starLayers.reverse else starLayers
  positionStarLayers settings.starMargin 0 starLayers

end CosmosLayers

def CosmosSize.calculateSizeToFitLayers (layers : List CALayer) : CGSize :=
  layers.foldl (fun size layer => {
    width := if layer.maxX > size.width then layer.maxX else size.width
    height := if layer.maxY > size.height then layer.maxY else size.height }) {}

/-- `touchLocationFromBeginningOfRating`: right-to-left stars are counted from the right edge. -/
def CosmosView.touchLocation (isRightToLeft : Bool) (boundsWidth locationX : ℚ) : ℚ :=
  if isRightToLeft then boundsWidth - locationX else locationX

namespace CosmosLayers
open CosmosRating
variable {settings : CosmosSettings} {isRightToLeft : Bool}

@[simp] lemma createCompositeStarLayer_size (starFillLevel : ℚ) :
    (createCompositeStarLayer starFillLevel settings isRightToLeft).size = settings.starSize := by
  unfold createCompositeStarLayer
  split_ifs <;> rfl

lemma createCompositeStarLayer_filledWidth {starFillLevel : ℚ} (le : starFillLevel ≤ 1)
    (positionX : ℚ) :
    CALayer.filledWidth
      { createCompositeStarLayer starFillLevel settings isRightToLeft with positionX } =
      settings.starSize * starFillLevel := by
  unfold createCompositeStarLayer
  split_ifs with full empty
  · rw [le_antisymm le full, mul_one]
    rfl
  · rw [empty, mul_zero]
    rfl
  · rfl

lemma positionStarLayers_eq {size : ℚ} {layers : List CALayer}
    (square : ∀ l ∈ layers, l.size = size)
    (starMargin positionX : ℚ) : positionStarLayers starMargin positionX layers =
      layers.mapIdx fun k layer => { layer with positionX := positionX + k *
        (size + starMargin) } := by
  induction layers generalizing positionX with
  | nil => rfl
  | cons layer layers ih =>
    obtain ⟨first, rest⟩ := List.forall_mem_cons.mp square
    rw [positionStarLayers, ih rest, List.mapIdx_cons, first]
    congr 1
    · simp
    · refine List.mapIdx_eq_mapIdx_iff.mpr fun k _ => ?_
      push_cast
      congr 1
      ring

lemma createStarLayersLoop_eq (stars : ℕ) (ratingRemander : ℚ) :
    createStarLayersLoop settings isRightToLeft stars ratingRemander =
      (List.range stars).map fun i : ℕ => createCompositeStarLayer
        (starFillLevel (ratingRemander - i) settings.fillMode) settings isRightToLeft := by
  induction stars generalizing ratingRemander with
  | zero => rfl
  | succ stars ih =>
    rw [createStarLayersLoop, ih, List.range_succ_eq_map, List.map_cons, List.map_map]
    congr 1
    · simp
    · refine List.map_congr_left fun i _ => ?_
      simp only [Function.comp_apply, Nat.succ_eq_add_one]
      push_cast
      congr 2
      ring

/-- The star that stands at a place of the row, counted in the direction of reading. -/
def starAt (settings : CosmosSettings) (isRightToLeft : Bool) (place : ℕ) : ℕ :=
  if isRightToLeft then settings.totalStars - 1 - place else place

/-- The layers of a rating: the star at each place holds its part of the displayed rating. -/
lemma createStarLayers_eq (rating : ℚ) : createStarLayers rating settings isRightToLeft =
    (List.range settings.totalStars).map fun place : ℕ => { createCompositeStarLayer
      (fill (displayedRatingFromPreciseRating rating settings.fillMode settings.totalStars)
        (starAt settings isRightToLeft place)) settings isRightToLeft with
      positionX := place * (settings.starSize + settings.starMargin) } := by
  have level (i : ℕ) : starFillLevel (numberOfFilledStars rating settings.totalStars - i)
      settings.fillMode =
      fill (displayedRatingFromPreciseRating rating settings.fillMode settings.totalStars) i := by
    rw [starFillLevel_eq, displayed_eq]
    exact roundFillLevel_fill (numberOfFilledStars_range rating settings.totalStars).1 _ i
  unfold createStarLayers
  dsimp only
  rw [createStarLayersLoop_eq, @positionStarLayers_eq settings.starSize]
  · simp only [level]
    refine List.ext_getElem (by cases isRightToLeft <;> simp) fun k _ _ => ?_
    rw [List.getElem_mapIdx]
    cases isRightToLeft <;> simp [starAt]
  · intro layer mem
    cases isRightToLeft <;> simp at mem <;> obtain ⟨i, -, rfl⟩ := mem <;> simp

lemma createStarLayers_place {place : ℕ} (bound : place < settings.totalStars) (rating : ℚ) :
    ∃ layer, (createStarLayers rating settings isRightToLeft)[place]? = some layer ∧
      layer.positionX = place * (settings.starSize + settings.starMargin) ∧
      layer.filledWidth = settings.starSize *
        fill (displayedRatingFromPreciseRating rating settings.fillMode settings.totalStars)
          (starAt settings isRightToLeft place) := by
  refine ⟨_, ?_, rfl,
    @createCompositeStarLayer_filledWidth _ isRightToLeft _ fill_le_one _⟩
  rw [createStarLayers_eq]
  simp [bound]

lemma sum_filledWidth (rating : ℚ) :
    ((createStarLayers rating settings isRightToLeft).map CALayer.filledWidth).sum =
      settings.starSize *
        displayedRatingFromPreciseRating rating settings.fillMode settings.totalStars := by
  generalize shown_eq :
    displayedRatingFromPreciseRating rating settings.fillMode settings.totalStars = shown
  have range := displayed_range rating settings.fillMode settings.totalStars
  rw [shown_eq] at range
  have widths : (createStarLayers rating settings isRightToLeft).map CALayer.filledWidth =
      (List.range settings.totalStars).map
        fun place => settings.starSize * fill shown (starAt settings isRightToLeft place) := by
    rw [createStarLayers_eq, List.map_map, shown_eq]
    exact List.map_congr_left fun _ _ => createCompositeStarLayer_filledWidth fill_le_one _
  have total : ∑ place ∈ Finset.range settings.totalStars,
      fill shown (starAt settings isRightToLeft place) = shown := by
    cases isRightToLeft with
    | false =>
      simp only [starAt, Bool.false_eq_true, if_false]
      rw [sum_fill, min_eq_right range.2, max_eq_right range.1]
    | true =>
      simp only [starAt, if_true]
      rw [Finset.sum_range_reflect (fill shown), sum_fill, min_eq_right range.2,
        max_eq_right range.1]
  rw [widths]
  exact (Finset.mul_sum _ _ _).symm.trans (congrArg _ total)

/-- The stars drawn are the displayed rating: star after star in the direction of reading, and as a
whole. -/
theorem createStarLayers_draws (rating : ℚ) (settings : CosmosSettings) (isRightToLeft : Bool) :
    let layers := createStarLayers rating settings isRightToLeft
    let shown := displayedRatingFromPreciseRating rating settings.fillMode settings.totalStars
    (∀ place < settings.totalStars, ∃ layer, layers[place]? = some layer ∧
      layer.positionX = place * (settings.starSize + settings.starMargin) ∧
      layer.filledWidth = settings.starSize * fill shown (starAt settings isRightToLeft place)) ∧
    (layers.map CALayer.filledWidth).sum = settings.starSize * shown :=
  ⟨fun _ bound => createStarLayers_place bound rating, sum_filledWidth rating⟩

lemma maxX_foldl (layers : List CALayer) (size : CGSize) :
    (layers.foldl (fun size layer => {
      width := if layer.maxX > size.width then layer.maxX else size.width
      height := if layer.maxY > size.height then layer.maxY else size.height }) size).width =
      (layers.map CALayer.maxX).foldl max size.width := by
  induction layers generalizing size with
  | nil => rfl
  | cons layer layers ih =>
    rw [List.foldl_cons, ih, List.map_cons, List.foldl_cons]
    congr 1
    rw [max_def]
    split_ifs <;> linarith

/-- The view is as wide as its stars with the margins between them. -/
lemma createStarLayers_width {stars : ℕ} (count : settings.totalStars = stars + 1)
    (size : 0 ≤ settings.starSize) (margin : 0 ≤ settings.starMargin) (rating : ℚ) :
    (CosmosSize.calculateSizeToFitLayers (createStarLayers rating settings isRightToLeft)).width =
      stars * (settings.starSize + settings.starMargin) + settings.starSize := by
  have edges : (createStarLayers rating settings isRightToLeft).map CALayer.maxX =
      (List.range (stars + 1)).map
        fun place : ℕ => place * (settings.starSize + settings.starMargin) + settings.starSize := by
    rw [createStarLayers_eq, count, List.map_map]
    refine List.map_congr_left fun place _ => ?_
    simp [CALayer.maxX]
  rw [CosmosSize.calculateSizeToFitLayers, maxX_foldl, edges]
  clear edges count
  induction stars with
  | zero => simp [size]
  | succ stars ih =>
    have pos : (0 : ℚ) ≤ stars := Nat.cast_nonneg stars
    rw [List.range_succ, List.map_append, List.foldl_append, ih]
    simp only [List.map_cons, List.map_nil, List.foldl_cons, List.foldl_nil]
    rw [max_eq_right]
    push_cast
    linarith

end CosmosLayers

end SpecialtyMap.Review
