import SpecialtyMap.Review.Reviewed

/-!
# Rating by VoiceOver

The form loads with the default rating, which is no half step. A VoiceOver step rounds its amount to
one decimal, so it never leads from there to a half step: until the stars are touched the rating is
one of the seven of `untouchedRatings`. On all but the first of them a decrement is rounded to
nothing, so VoiceOver alone cannot rate below two and a half stars (`untouched_run`). After a touch
the ratings are half steps: VoiceOver reaches every one of them (`voiceOver_reaches`), and as long
as it is not used before, only their texts are posted (`posted_evaluations`).
-/

namespace SpecialtyMap.Review
open SpecialtyMap.DB SpecialtyMap.Machine SpecialtyMap.Number

/-- The ratings VoiceOver steps lead to from the default rating. -/
def voiceOverRatings : List ℚ :=
  [2518281828 / 1000000000, 3018281828 / 1000000000, 3518281828 / 1000000000,
    4018281828 / 1000000000, 4518281828 / 1000000000, 5018281828 / 1000000000]

/-- The ratings of a form whose stars have not been touched. -/
def untouchedRatings : List ℚ := 2718281828 / 1000000000 :: voiceOverRatings

/-- The texts of the half steps. -/
def evaluations : List String := ["1.0", "1.5", "2.0", "2.5", "3.0", "3.5", "4.0", "4.5", "5.0"]

lemma increment_untouched : ∀ r ∈ untouchedRatings,
    r + CosmosAccessibility.accessibilityIncrement r halfSettings ∈ voiceOverRatings := by
  decide +kernel

lemma decrement_untouched : ∀ r ∈ untouchedRatings,
    r - CosmosAccessibility.accessibilityDecrement r halfSettings ∈ voiceOverRatings := by
  decide +kernel

lemma decrement_stuck : ∀ r ∈ voiceOverRatings,
    r - CosmosAccessibility.accessibilityDecrement r halfSettings = r := by
  decide +kernel

lemma displayed_untouched : ∀ r ∈ untouchedRatings,
    5 / 2 ≤ CosmosRating.displayedRatingFromPreciseRating r .half 5 := by
  decide +kernel

lemma description_halfStep_mem {r : ℚ} (half : HalfStep r) : description r ∈ evaluations := by
  have texts : ∀ n : ℕ, n < 11 → 2 ≤ n → description (n / 2) ∈ evaluations := by decide +kernel
  obtain ⟨n, low, high, rfl⟩ := half
  exact texts n (by omega) low

def FormEvent.IsTouch : FormEvent → Prop
  | .touch _ => True
  | _ => False

def FormEvent.IsVoiceOver : FormEvent → Prop
  | .accessibilityIncrement => True
  | .accessibilityDecrement => True
  | _ => False

def FormEvent.IsPost : FormEvent → Bool
  | .addbtn => true
  | _ => false

namespace Form
variable {s : Form}

/-- A VoiceOver step moves the rating and writes its text. -/
lemma step_increment (settings : s.screen.cosmosView.settings = halfSettings) :
    step s .accessibilityIncrement = voiceOver (s.screen.cosmosView.rating +
      CosmosAccessibility.accessibilityIncrement s.screen.cosmosView.rating halfSettings) s := by
  rw [← settings]
  rfl

lemma step_decrement (settings : s.screen.cosmosView.settings = halfSettings) :
    step s .accessibilityDecrement = voiceOver (s.screen.cosmosView.rating -
      CosmosAccessibility.accessibilityDecrement s.screen.cosmosView.rating halfSettings) s := by
  rw [← settings]
  rfl

section
variable {r : ℚ}

@[simp] lemma voiceOver_rating : (voiceOver r s).screen.cosmosView.rating = r := rfl

end

lemma step_settings (s : Form) (e : FormEvent) :
    (step s e).screen.cosmosView.settings = s.screen.cosmosView.settings := by
  cases e with
  | touch locationX =>
    rw [step, ReviewedViewController.didTouchCosmos.eq_def]
    unfold CosmosView.onDidTouch
    dsimp only
    split_ifs <;> rfl
  | _ => rfl

/-- After a touch the rating is a half step, and the text is that of one all along. -/
structure Rated (s : Form) : Prop where
  settings : s.screen.cosmosView.settings = halfSettings
  rating : Touched s → HalfStep s.screen.cosmosView.rating
  text : s.screen.cosmosCount ∈ evaluations

lemma Rated.init (specialtyName comment : String) (store : Store) :
    Rated (load specialtyName comment store) where
  settings := rfl
  rating touched := absurd touched not_halfStep_sentinel
  text := by
    show "2.5" ∈ evaluations
    decide

lemma Rated.voiceOver {r : ℚ} (inv : Rated s) (half : HalfStep r) : Rated (voiceOver r s) :=
  ⟨inv.settings, fun _ => half, description_halfStep_mem half⟩

lemma Rated.step (inv : Rated s) {e : FormEvent} (touched : e.IsVoiceOver → Touched s) :
    Rated (step s e) := by
  cases e with
  | touch locationX =>
    have half := touchRating_half locationX
    refine ⟨(step_settings s _).trans inv.settings, fun _ => ?_, ?_⟩
    · rw [step_touch_cosmosView inv.settings]
      exact half
    · rw [step_touch_cosmosCount inv.settings]
      dsimp only
      split
      · exact inv.text
      · exact description_halfStep_mem half
  | accessibilityIncrement =>
    rw [step_increment inv.settings]
    exact inv.voiceOver (increment_halfStep (inv.rating (touched trivial)))
  | accessibilityDecrement =>
    rw [step_decrement inv.settings]
    exact inv.voiceOver (decrement_halfStep (inv.rating (touched trivial)))
  | edit specialtyName comment => exact ⟨inv.settings, inv.rating, inv.text⟩
  | addbtn => exact ⟨inv.settings, inv.rating, inv.text⟩

/-- What a run posts: one review for each press of the button, and nothing else happens to the
store. If VoiceOver is used on touched stars only, the evaluations are those of half steps. -/
theorem posted_evaluations (specialtyName comment : String) (store : Store) (es : List FormEvent) :
    ∃ posted, (exec step (load specialtyName comment store) es).store =
        { store with review := store.review ++ posted } ∧
      posted.length = es.countP FormEvent.IsPost ∧
      (AllSteps step (fun s e => e.IsVoiceOver → Touched s) (load specialtyName comment store) es →
        ∀ review ∈ posted, review.evaluation ∈ evaluations) := by
  suffices posts : ∀ s, ∃ posted,
      (exec step s es).store = { s.store with review := s.store.review ++ posted } ∧
      posted.length = es.countP FormEvent.IsPost ∧
      (Rated s → AllSteps step (fun s e => e.IsVoiceOver → Touched s) s es →
        ∀ review ∈ posted, review.evaluation ∈ evaluations) by
    obtain ⟨posted, after, count, texts⟩ := posts (load specialtyName comment store)
    exact ⟨posted, after, count, texts (Rated.init specialtyName comment store)⟩
  induction es with
  | nil => exact fun s => ⟨[], by simp, rfl, by simp⟩
  | cons e es ih =>
    intro s
    obtain ⟨posted, after, count, texts⟩ := ih (step s e)
    have rest (inv : Rated s) (touched : AllSteps step (fun s e => e.IsVoiceOver →
        Touched s) s (e :: es)) :
        ∀ review ∈ posted, review.evaluation ∈ evaluations := texts (inv.step touched.1) touched.2
    rw [exec_cons, after]
    cases e with
    | addbtn =>
      refine ⟨⟨s.screen.specialtyName, s.screen.cosmosCount,
        s.screen.comment⟩ :: posted, ?_, ?_, ?_⟩
      · simp [step, ReviewedViewController.addbtn, Store.addReview]
      · rw [List.length_cons, count, List.countP_cons_of_pos rfl]
      · exact fun inv touched => List.forall_mem_cons.mpr ⟨inv.text, rest inv touched⟩
    | touch locationX => exact ⟨posted, rfl, by rw [count]; rfl, rest⟩
    | accessibilityIncrement => exact ⟨posted, rfl, by rw [count]; rfl, rest⟩
    | accessibilityDecrement => exact ⟨posted, rfl, by rw [count]; rfl, rest⟩
    | edit specialtyName comment => exact ⟨posted, rfl, by rw [count]; rfl, rest⟩

/-- The rating of a form whose stars have not been touched. -/
structure Untouched (s : Form) : Prop where
  settings : s.screen.cosmosView.settings = halfSettings
  rating : s.screen.cosmosView.rating ∈ untouchedRatings

lemma Untouched.step (inv : Untouched s) (e : FormEvent) (untouched : ¬ e.IsTouch) :
    Untouched (Form.step s e) := by
  obtain ⟨settings, rating⟩ := inv
  cases e with
  | touch locationX => exact absurd trivial untouched
  | accessibilityIncrement =>
    rw [step_increment settings]
    exact ⟨settings, List.mem_cons_of_mem _ (increment_untouched _ rating)⟩
  | accessibilityDecrement =>
    rw [step_decrement settings]
    exact ⟨settings, List.mem_cons_of_mem _ (decrement_untouched _ rating)⟩
  | edit specialtyName comment => exact ⟨settings, rating⟩
  | addbtn => exact ⟨settings, rating⟩

lemma Untouched.displayed (inv : Untouched s) : 5 / 2 ≤ s.screen.cosmosView.displayed := by
  rw [CosmosView.displayed, inv.settings]
  exact displayed_untouched _ inv.rating

lemma Untouched.decrement (inv : Untouched s)
    (moved : s.screen.cosmosView.rating ≠ 2718281828 / 1000000000) :
    (Form.step s .accessibilityDecrement).screen.cosmosView.rating =
      s.screen.cosmosView.rating := by
  rw [step_decrement inv.settings, voiceOver_rating]
  exact decrement_stuck _ (List.mem_of_ne_of_mem moved inv.rating)

/-- Without a touch the stars never show less than two and a half, and a decrement does nothing from
any rating but the default one. -/
theorem untouched_run (specialtyName comment : String) (store : Store) {es : List FormEvent}
    (untouched : ∀ e ∈ es, ¬ e.IsTouch) :
    AllStates step (fun s => 5 / 2 ≤ s.screen.cosmosView.displayed)
      (load specialtyName comment store) es ∧
    AllSteps step (fun s e => e = .accessibilityDecrement →
        s.screen.cosmosView.rating ≠ 2718281828 / 1000000000 →
        (step s e).screen.cosmosView.rating = s.screen.cosmosView.rating)
      (load specialtyName comment store) es := by
  have init : Untouched (load specialtyName comment store) := ⟨rfl, List.mem_cons_self⟩
  have all : AllStates step Untouched (load specialtyName comment store) es :=
    allStates_invariant (fun _ e inv => inv.step e) init untouched
  refine ⟨all.mono fun _ inv => inv.displayed, all.steps ?_⟩
  rintro s _ inv rfl moved
  exact inv.decrement moved

/-- Up, down twice, and a post. -/
theorem untouched_run_down :
    let es : List FormEvent :=
      [.accessibilityIncrement, .accessibilityDecrement, .accessibilityDecrement, .addbtn]
    AllStates step (fun s => 5 / 2 ≤ s.screen.cosmosView.displayed) (load "パン" "" {}) es ∧
    AllSteps step (fun s e => e = .accessibilityDecrement →
        s.screen.cosmosView.rating ≠ 2718281828 / 1000000000 →
        (step s e).screen.cosmosView.rating = s.screen.cosmosView.rating) (load "パン" "" {}) es :=
  untouched_run "パン" "" {} (by simp [FormEvent.IsTouch])

/-- The rating of a form whose stars have been touched. -/
structure Halved (s : Form) : Prop where
  settings : s.screen.cosmosView.settings = halfSettings
  rating : HalfStep s.screen.cosmosView.rating

lemma Halved.touch (settings : s.screen.cosmosView.settings = halfSettings) (locationX : ℚ) :
    Halved (step s (.touch locationX)) := by
  constructor
  · rw [step_touch_cosmosView settings]
  · rw [step_touch_cosmosView settings]
    exact touchRating_half locationX

lemma Halved.step (inv : Halved s) (e : FormEvent) : Halved (step s e) := by
  obtain ⟨settings, rating⟩ := inv
  cases e with
  | touch locationX => exact Halved.touch settings locationX
  | accessibilityIncrement =>
    rw [step_increment settings]
    exact ⟨settings, increment_halfStep rating⟩
  | accessibilityDecrement =>
    rw [step_decrement settings]
    exact ⟨settings, decrement_halfStep rating⟩
  | edit specialtyName comment => exact ⟨settings, rating⟩
  | addbtn => exact ⟨settings, rating⟩

/-- A touch leaves a half step, and what follows keeps it one. -/
lemma Halved.run (settings : s.screen.cosmosView.settings = halfSettings) {es : List FormEvent}
    (touched : ∃ e ∈ es, e.IsTouch) : Halved (exec Form.step s es) := by
  induction es generalizing s with
  | nil =>
    obtain ⟨e, mem, -⟩ := touched
    cases mem
  | cons e es ih =>
    obtain ⟨e', mem, touch⟩ := touched
    rcases List.mem_cons.mp mem with rfl | mem
    · cases e' with
      | touch locationX =>
        exact exec_invariant (fun _ e inv => inv.step e) (Halved.touch settings locationX) es
      | _ => cases touch
    · exact ih ((step_settings s e).trans settings) ⟨e', mem, touch⟩

section Steps
variable {n : ℕ}

lemma Halved.decrements (inv : Halved s) (low : 2 ≤ n) (high : n ≤ 10)
    (rating : s.screen.cosmosView.rating = n / 2) (k : ℕ) :
    Halved (exec Form.step s (List.replicate k .accessibilityDecrement)) ∧
      (exec Form.step s (List.replicate k .accessibilityDecrement)).screen.cosmosView.rating =
        (max (n - k) 2 : ℕ) / 2 := by
  induction k generalizing s n with
  | zero =>
    refine ⟨inv, ?_⟩
    rw [Nat.sub_zero, max_eq_left low]
    exact rating
  | succ k ih =>
    have next : (Form.step s .accessibilityDecrement).screen.cosmosView.rating =
        (max (n - 1) 2 : ℕ) / 2 := by
      rw [step_decrement inv.settings, rating, decrement_half low high, voiceOver_rating]
    obtain ⟨inv', rating'⟩ := ih (inv.step _) (by omega) (by omega) next
    rw [List.replicate_succ, exec_cons]
    refine ⟨inv', rating'.trans ?_⟩
    congr 2
    omega

lemma Halved.increments (inv : Halved s) (high : n ≤ 10)
    (rating : s.screen.cosmosView.rating = n / 2) (k : ℕ) :
    Halved (exec Form.step s (List.replicate k .accessibilityIncrement)) ∧
      (exec Form.step s (List.replicate k .accessibilityIncrement)).screen.cosmosView.rating =
        (min (n + k) 10 : ℕ) / 2 := by
  induction k generalizing s n with
  | zero =>
    refine ⟨inv, ?_⟩
    rw [Nat.add_zero, min_eq_left high]
    exact rating
  | succ k ih =>
    have next : (Form.step s .accessibilityIncrement).screen.cosmosView.rating =
        (min (n + 1) 10 : ℕ) / 2 := by
      rw [step_increment inv.settings, rating, increment_half high, voiceOver_rating]
    obtain ⟨inv', rating'⟩ := ih (inv.step _) (by omega) next
    rw [List.replicate_succ, exec_cons]
    refine ⟨inv', rating'.trans ?_⟩
    congr 2
    omega

lemma text_step (settings : s.screen.cosmosView.settings = halfSettings) {e : FormEvent}
    (voiceOver : e.IsVoiceOver) :
    (step s e).screen.cosmosCount = description (step s e).screen.cosmosView.rating := by
  cases e with
  | accessibilityIncrement =>
    rw [step_increment settings]
    rfl
  | accessibilityDecrement =>
    rw [step_decrement settings]
    rfl
  | _ => cases voiceOver

/-- After VoiceOver steps the text is that of the rating. -/
lemma text_steps (settings : s.screen.cosmosView.settings = halfSettings) {es : List FormEvent}
    (voiceOver : ∀ e ∈ es, e.IsVoiceOver) (any : es ≠ []) :
    (exec step s es).screen.cosmosCount = description
    (exec step s es).screen.cosmosView.rating := by
  induction es generalizing s with
  | nil => exact absurd rfl any
  | cons e es ih =>
    obtain ⟨first, rest⟩ := List.forall_mem_cons.mp voiceOver
    cases es with
    | nil => exact text_step settings first
    | cons e' es => exact ih ((step_settings s e).trans settings) rest (List.cons_ne_nil _ _)

end Steps

/-- Once the stars have been touched, VoiceOver steps lead to every half step, and a post then has
it for its evaluation. -/
theorem voiceOver_reaches (specialtyName comment : String) (store : Store) {es : List FormEvent}
    (touched : ∃ e ∈ es, e.IsTouch) {r : ℚ} (half : HalfStep r) :
    ∃ steps : List FormEvent, (∀ e ∈ steps, e.IsVoiceOver) ∧
      let s := exec step (load specialtyName comment store) (es ++ steps)
      s.screen.cosmosView.rating = r ∧ s.screen.cosmosCount = description r := by
  have inv : Halved (exec step (load specialtyName comment store) es) := Halved.run rfl touched
  obtain ⟨n, low, high, rating⟩ := inv.rating
  obtain ⟨m, low', high', rfl⟩ := half
  -- down to one star and up from there
  let steps : List FormEvent :=
    List.replicate 9 .accessibilityDecrement ++ List.replicate (m - 2) .accessibilityIncrement
  have voiceOver : ∀ e ∈ steps, e.IsVoiceOver := by
    intro e mem
    rcases List.mem_append.mp mem with mem | mem
    · rw [List.eq_of_mem_replicate mem]
      trivial
    · rw [List.eq_of_mem_replicate mem]
      trivial
  obtain ⟨bottom, rating₁⟩ := inv.decrements low high rating 9
  have one : max (n - 9) 2 = 2 := by omega
  rw [one] at rating₁
  obtain ⟨-, rating₂⟩ := bottom.increments (by omega) rating₁ (m - 2)
  have top : min (2 + (m - 2)) 10 = m := by omega
  rw [top, ← exec_append, ← exec_append] at rating₂
  refine ⟨steps, voiceOver, rating₂, ?_⟩
  have text := text_steps inv.settings voiceOver (by simp [steps])
  rw [← exec_append] at text
  rw [text]
  exact congrArg description rating₂

/-- Five stars by touch, and three and a half by VoiceOver. -/
theorem voiceOver_reaches_down :
    ∃ steps : List FormEvent, (∀ e ∈ steps, e.IsVoiceOver) ∧
      let s := exec step (load "パン" "" {}) ([.touch (touchPlace 10)] ++ steps)
      s.screen.cosmosView.rating = 7 / 2 ∧ s.screen.cosmosCount = description (7 / 2) :=
  voiceOver_reaches "パン" "" {} ⟨.touch (touchPlace 10), List.mem_singleton_self _, trivial⟩
    ⟨7, by decide, by decide, by norm_num⟩

end Form

end SpecialtyMap.Review
