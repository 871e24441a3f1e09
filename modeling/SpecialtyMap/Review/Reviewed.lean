import SpecialtyMap.DB.Record
import SpecialtyMap.Machine.Run
import SpecialtyMap.Review.Cosmos

/-!
# The review form

`ReviewedViewController` keeps the text of the rating in `cosmosCount`, written by the callback of
the star view, and `addbtn` posts that text. The text follows the stars as long as the callback is
called whenever the rating changes and is given a rating the stars can show.

Both can fail. A touch that repeats the last touched value is not called back, although VoiceOver
may have moved the rating in between, and a VoiceOver step before the first touch starts from the
default rating, which is no half step. `evaluation_displayed_iff` says that nothing else goes wrong.
-/

namespace SpecialtyMap.Review
open SpecialtyMap.DB SpecialtyMap.Machine SpecialtyMap.Number

structure ReviewedViewController where
  specialtyName : String := ""
  comment : String := ""
  cosmosView : CosmosView := {}
  cosmosCount : String := "2.5"

namespace ReviewedViewController

def viewDidLoad (vc : ReviewedViewController) : ReviewedViewController :=
  { vc with cosmosView.settings.fillMode := .half }

/-- The closure `viewDidLoad` stores in `didTouchCosmos`, if the star view calls it. -/
def didTouchCosmos (vc : ReviewedViewController) : CosmosView × Option ℚ → ReviewedViewController
  | (cosmosView, some rating) => { vc with cosmosView, cosmosCount := description rating }
  | (cosmosView, none) => { vc with cosmosView }

def addbtn (vc : ReviewedViewController) (store : Store) : Store :=
  store.addReview {
    specialtyName := vc.specialtyName
    evaluation := vc.cosmosCount
    comment := vc.comment
  }

end ReviewedViewController

/-- The form and the store it posts to. -/
structure Form where
  screen : ReviewedViewController
  store : Store

/-- What happens to the form. -/
inductive FormEvent where
  | touch (locationX : ℚ)
  | accessibilityIncrement
  | accessibilityDecrement
  | edit (specialtyName comment : String)
  | addbtn

namespace Form
variable {s : Form}

def load (specialtyName comment : String) (store : Store) : Form where
  screen := ReviewedViewController.viewDidLoad { specialtyName, comment }
  store := store

def step (s : Form) : FormEvent → Form
  | .touch locationX =>
    { s with screen := s.screen.didTouchCosmos (s.screen.cosmosView.onDidTouch locationX) }
  | .accessibilityIncrement =>
    { s with screen := s.screen.didTouchCosmos s.screen.cosmosView.accessibilityIncrement }
  | .accessibilityDecrement =>
    { s with screen := s.screen.didTouchCosmos s.screen.cosmosView.accessibilityDecrement }
  | .edit specialtyName comment => { s with screen := { s.screen with specialtyName, comment } }
  | .addbtn => { s with store := s.screen.addbtn s.store }

/-- The text of the rating is that of the stars. -/
def Agrees (s : Form) : Prop := s.screen.cosmosCount = description s.screen.cosmosView.displayed

instance : Decidable (Agrees s) := inferInstanceAs (Decidable (_ = _))

/-- A post adds one review, with the rating the stars show. -/
def PostsDisplayed (s : Form) : FormEvent → Prop
  | .addbtn => (step s .addbtn).store = s.store.addReview {
      specialtyName := s.screen.specialtyName
      evaluation := description s.screen.cosmosView.displayed
      comment := s.screen.comment }
  | _ => True

/-- The stars have been touched. -/
def Touched (s : Form) : Prop := HalfStep s.screen.cosmosView.previousRatingForDidTouchCallback

/-- VoiceOver is used after a touch, and a touch that repeats the last touched value finds the
rating where that touch left it. -/
def Faithful (s : Form) : FormEvent → Prop
  | .touch locationX =>
    let touched := CosmosTouch.touchRating locationX s.screen.cosmosView.settings
    touched = s.screen.cosmosView.previousRatingForDidTouchCallback →
      s.screen.cosmosView.rating = touched
  | .accessibilityIncrement => Touched s
  | .accessibilityDecrement => Touched s
  | .edit _ _ => True
  | .addbtn => True

/-- Before the first touch the form is as it loads, after it the rating is a half step, and its text
is that of the stars all along. -/
structure Settled (s : Form) : Prop where
  settings : s.screen.cosmosView.settings = halfSettings
  agrees : Agrees s
  rating : (Touched s ∧ HalfStep s.screen.cosmosView.rating) ∨
    (¬ Touched s ∧ s.screen.cosmosView.rating = 2718281828 / 1000000000)

lemma not_halfStep_sentinel : ¬ HalfStep (-123192 / 1000) := by
  rintro ⟨n, -, -, e⟩
  have nonneg : (0 : ℚ) ≤ n := Nat.cast_nonneg n
  linarith

lemma Settled.init (specialtyName comment : String) (store : Store) :
    Settled (load specialtyName comment store) where
  settings := rfl
  agrees := by
    show "2.5" = description (CosmosView.displayed { settings := halfSettings })
    decide +kernel
  rating := .inr ⟨not_halfStep_sentinel, rfl⟩

lemma description_halfStep {r r' : ℚ} (half : HalfStep r) (half' : HalfStep r')
    (e : description r = description r') : r = r' := by
  have texts : ∀ n : ℕ, n < 11 → ∀ m : ℕ, m < 11 →
      description (n / 2) = description (m / 2) → n = m := by
    decide +kernel
  obtain ⟨n, -, bound, rfl⟩ := half
  obtain ⟨m, -, bound', rfl⟩ := half'
  rw [texts n (by omega) m (by omega) e]

lemma agrees_iff (settings : s.screen.cosmosView.settings = halfSettings) :
    Agrees s ↔ s.screen.cosmosCount = description
      (CosmosRating.displayedRatingFromPreciseRating s.screen.cosmosView.rating .half 5) := by
  rw [Agrees, CosmosView.displayed, settings]
  rfl

lemma agrees_halfStep (settings : s.screen.cosmosView.settings = halfSettings)
    (half : HalfStep s.screen.cosmosView.rating) :
    Agrees s ↔ s.screen.cosmosCount = description s.screen.cosmosView.rating := by
  rw [agrees_iff settings, displayed_halfStep half]

section Touch
variable {locationX : ℚ}

lemma step_touch_cosmosView (settings : s.screen.cosmosView.settings = halfSettings) :
    (step s (.touch locationX)).screen.cosmosView =
      let touched := CosmosTouch.touchRating locationX halfSettings
      ⟨touched, halfSettings, touched⟩ := by
  rw [step, onDidTouch_half settings]
  split <;> rfl

lemma step_touch_cosmosCount (settings : s.screen.cosmosView.settings = halfSettings) :
    (step s (.touch locationX)).screen.cosmosCount =
      let touched := CosmosTouch.touchRating locationX halfSettings
      if touched = s.screen.cosmosView.previousRatingForDidTouchCallback then s.screen.cosmosCount
      else description touched := by
  rw [step, onDidTouch_half settings]
  dsimp only
  split <;> rfl

/-- A touch keeps the text with the stars exactly when it is faithful. -/
lemma Settled.touch_iff (inv : Settled s) :
    Agrees (step s (.touch locationX)) ↔ Faithful s (.touch locationX) := by
  have half := touchRating_half locationX
  have view := @step_touch_cosmosView _ locationX inv.settings
  rw [agrees_halfStep (by rw [view]) (by rw [view]; exact half), view,
    step_touch_cosmosCount inv.settings, Faithful, inv.settings]
  dsimp only
  split
  case isFalse new => exact ⟨fun _ repeated => absurd repeated new, fun _ => rfl⟩
  case isTrue repeated =>
    -- the text is that of the rating before the touch
    have touched : Touched s := by rwa [Touched, ← repeated]
    obtain ⟨-, rating⟩ | ⟨untouched, -⟩ := inv.rating
    · rw [(agrees_halfStep inv.settings rating).mp inv.agrees]
      constructor
      · exact fun texts _ => description_halfStep rating half texts
      · exact fun same => congrArg description (same repeated)
    · exact absurd touched untouched

lemma Settled.touch (inv : Settled s) (faithful : Faithful s (.touch locationX)) :
    Settled (step s (.touch locationX)) := by
  have half := touchRating_half locationX
  have view := @step_touch_cosmosView _ locationX inv.settings
  refine ⟨by rw [view], inv.touch_iff.mpr faithful, .inl ⟨?_, ?_⟩⟩
  · rw [Touched, view]
    exact half
  · rw [view]
    exact half

end Touch

section VoiceOver
variable {r : ℚ}

/-- The form after a VoiceOver step to a rating. -/
def voiceOver (r : ℚ) (s : Form) : Form :=
  { s with screen := s.screen.didTouchCosmos ({ s.screen.cosmosView with rating := r }, some r) }

/-- A VoiceOver step from half step to half step keeps the text with the stars, and one from the
default rating to a rating that is not displayed as it is does not. -/
lemma Settled.voiceOver_iff (inv : Settled s)
    (half : HalfStep s.screen.cosmosView.rating → HalfStep r)
    (default : s.screen.cosmosView.rating = 2718281828 / 1000000000 → description r ≠
      description (CosmosRating.displayedRatingFromPreciseRating r .half 5)) :
    Agrees (voiceOver r s) ↔ Touched s := by
  have settings : (voiceOver r s).screen.cosmosView.settings = halfSettings := inv.settings
  obtain ⟨touched, rating⟩ | ⟨untouched, rating⟩ := inv.rating
  · rw [agrees_halfStep settings (half rating)]
    exact ⟨fun _ => touched, fun _ => rfl⟩
  · rw [agrees_iff settings]
    exact ⟨fun texts => absurd texts (default rating), fun touched => absurd touched untouched⟩

lemma Settled.voiceOver (inv : Settled s) (half : HalfStep s.screen.cosmosView.rating → HalfStep r)
    (touched : Touched s) : Settled (voiceOver r s) := by
  obtain ⟨-, rating⟩ | ⟨untouched, -⟩ := inv.rating
  · have settings : (Form.voiceOver r s).screen.cosmosView.settings = halfSettings := inv.settings
    exact ⟨settings, (agrees_halfStep settings (half rating)).mpr rfl, .inl ⟨touched, half rating⟩⟩
  · exact absurd touched untouched

lemma Settled.incremented (inv : Settled s) (rating : HalfStep s.screen.cosmosView.rating) :
    HalfStep (s.screen.cosmosView.rating + CosmosAccessibility.accessibilityIncrement
      s.screen.cosmosView.rating s.screen.cosmosView.settings) := by
  rw [inv.settings]
  exact increment_halfStep rating

lemma Settled.decremented (inv : Settled s) (rating : HalfStep s.screen.cosmosView.rating) :
    HalfStep (s.screen.cosmosView.rating - CosmosAccessibility.accessibilityDecrement
      s.screen.cosmosView.rating s.screen.cosmosView.settings) := by
  rw [inv.settings]
  exact decrement_halfStep rating

lemma Settled.increment_iff (inv : Settled s) :
    Agrees (step s .accessibilityIncrement) ↔ Touched s := by
  apply inv.voiceOver_iff inv.incremented
  intro rating
  rw [inv.settings, rating]
  decide +kernel

lemma Settled.decrement_iff (inv : Settled s) :
    Agrees (step s .accessibilityDecrement) ↔ Touched s := by
  apply inv.voiceOver_iff inv.decremented
  intro rating
  rw [inv.settings, rating]
  decide +kernel

end VoiceOver

/-- One event keeps the text with the stars, and posts the rating they show, exactly when it is
faithful. -/
lemma Settled.step_iff (inv : Settled s) (e : FormEvent) :
    PostsDisplayed s e ∧ Agrees (step s e) ↔ Faithful s e := by
  cases e with
  | touch locationX =>
    rw [← inv.touch_iff]
    exact and_iff_right trivial
  | accessibilityIncrement =>
    rw [inv.increment_iff]
    exact and_iff_right trivial
  | accessibilityDecrement =>
    rw [inv.decrement_iff]
    exact and_iff_right trivial
  | edit specialtyName comment => exact ⟨fun _ => trivial, fun _ => ⟨trivial, inv.agrees⟩⟩
  | addbtn =>
    have posts : PostsDisplayed s .addbtn := by
      rw [PostsDisplayed, step, ReviewedViewController.addbtn, ← inv.agrees]
    exact ⟨fun _ => trivial, fun _ => ⟨posts, inv.agrees⟩⟩

lemma Settled.step (inv : Settled s) (e : FormEvent) (faithful : Faithful s e) :
    Settled (step s e) := by
  cases e with
  | touch locationX => exact inv.touch faithful
  | accessibilityIncrement => exact inv.voiceOver inv.incremented faithful
  | accessibilityDecrement => exact inv.voiceOver inv.decremented faithful
  | edit specialtyName comment => exact ⟨inv.settings, inv.agrees, inv.rating⟩
  | addbtn => exact ⟨inv.settings, inv.agrees, inv.rating⟩

/-- The text of the rating is that of the stars all through a run, and every post adds one review
with it, exactly when the events of the run are faithful. -/
theorem evaluation_displayed_iff (specialtyName comment : String) (store : Store)
    (es : List FormEvent) :
    AllStates step Agrees (load specialtyName comment store) es ∧
      AllSteps step PostsDisplayed (load specialtyName comment store) es ↔
      AllSteps step Faithful (load specialtyName comment store) es := by
  have init := Settled.init specialtyName comment store
  exact allStates_allSteps_iff (fun _ e inv => inv.step_iff e)
    (fun _ e inv faithful => inv.step e faithful) init init.agrees es

/-- Three stars by touch, a half more by VoiceOver, three again by touch: the stars show three, and
the review says three and a half. -/
theorem evaluation_displayed_fails :
    let s := exec step (load "パン" "" {})
      [.touch (touchPlace 6), .accessibilityIncrement, .touch (touchPlace 6), .addbtn]
    s.screen.cosmosView.displayed = 3 ∧ s.store.review = [⟨"パン", "3.5", ""⟩] ∧ ¬ Agrees s := by
  refine ⟨?_, ?_, ?_⟩ <;> decide +kernel

end Form

end SpecialtyMap.Review
