import SpecialtyMap.Map.Screen
import SpecialtyMap.Machine.Run

/-!
# Tapping a pin

`mapViewDidSelect` hands the title and the subtitle of the tapped pin to the popup, which unwraps
both. Its `?? ""` tests the outer optional of a doubly optional requirement, so a pin without a
title or without a subtitle reaches the unwrap as `nil`.

Shop pins have both texts, the pin of a search result has both exactly when its placemark has a
name, and none of the annotations held in fields ever gets both: `pointAno` has no subtitle, the
other two have no title. `select_safe_iff` puts this together over runs.
-/

namespace SpecialtyMap.Map
open SpecialtyMap.DB SpecialtyMap.Machine

/-- Both texts of an annotation are present. -/
def Filled (object : MKPointAnnotation) : Prop :=
  object.title ≠ none ∧ object.subtitle ≠ none

namespace ViewController
variable {d : DistanceFunction} {vc : ViewController}

/-- Every pin on the map can be tapped, wherever the user is and whatever was tapped before. -/
def Selectable (d : DistanceFunction) (vc : ViewController) : Prop :=
  ∀ pin ∈ vc.annotations, ∀ user delegate, ∃ opened, tapPin d user pin vc delegate = .ok opened

/-- The events that bring no pin without a title or without a subtitle onto the map. -/
def EventSafe (d : DistanceFunction) : MapEvent → Prop
  | .didUpdateLocations user => d.distance user .zero = 0
  | .longPress state _ _ => state ≠ .ended
  | .searchCompleted result error => ∀ placemark ∈ placed result error, placemark.name ≠ none

/-- Tapping a pin opens the popup exactly when the pin has both texts. -/
theorem tapPin_ok_iff (d : DistanceFunction) (user : Coordinate) (pin : Pin) (vc : ViewController)
    (delegate : AppDelegate) :
    (∃ opened, tapPin d user pin vc delegate = .ok opened) ↔ Filled (vc.object pin) := by
  have select : tapPin d user pin vc delegate =
      (do
        let popup ← SemiModalViewController.viewDidLoad { delegate with
          nameValue := (vc.object pin).title, streetAddrValue := (vc.object pin).subtitle }
        return ({ vc with tap := {
            tapPointTitle := (vc.object pin).title
            tapStreetAddr := (vc.object pin).subtitle
            tapDistance := d.distance user (vc.object pin).coordinate } },
          { delegate with
            nameValue := (vc.object pin).title, streetAddrValue := (vc.object pin).subtitle },
          popup)) := rfl
  have opens := viewDidLoad_ok_iff { delegate with
    nameValue := (vc.object pin).title, streetAddrValue := (vc.object pin).subtitle }
  rw [Filled, and_comm, ← opens, select]
  constructor
  · rintro ⟨opened, e⟩
    obtain ⟨popup, loaded, -⟩ := bind_ok e
    exact ⟨popup, loaded⟩
  · rintro ⟨popup, loaded⟩
    rw [loaded]
    exact ⟨_, rfl⟩

lemma selectable_iff : Selectable d vc ↔ ∀ pin ∈ vc.annotations, Filled (vc.object pin) := by
  constructor
  · exact fun safe pin mem => (tapPin_ok_iff d .zero pin vc {}).mp (safe pin mem .zero {})
  · exact fun filled pin mem user delegate => (tapPin_ok_iff d user pin vc delegate).mpr
      (filled pin mem)

/-- The state the safe events keep: no annotation of a field was written, every
pin can be tapped. -/
structure Untouched (d : DistanceFunction) (vc : ViewController) : Prop where
  field : ∀ f, vc.field f = {}
  selectable : Selectable d vc

lemma Untouched.update_iff {user : Coordinate} (inv : Untouched d vc) :
    Selectable d (didUpdateLocations d user vc) ↔ d.distance user .zero = 0 := by
  constructor
  · intro safe
    by_contra away
    -- the unused field comes onto the map with a subtitle only
    have stale : Stale d user .annotationPin vc := (stale_iff_of_fresh (inv.field _)).mpr away
    have untitled := (selectable_iff.mp safe (.field .annotationPin)
      (mem_didUpdateLocations.mpr (.inr ⟨_, rfl, stale⟩))).1
    apply untitled
    rw [object, didUpdateLocations_field, if_pos stale, inv.field]
    rfl
  · intro here
    rw [didUpdateLocations_fresh fun f stale => (stale_iff_of_fresh (inv.field f)).mp stale here]
    exact inv.selectable

lemma Untouched.update {user : Coordinate} (inv : Untouched d vc)
    (here : d.distance user .zero = 0) :
    Untouched d (didUpdateLocations d user vc) := by
  rw [didUpdateLocations_fresh fun f stale => (stale_iff_of_fresh (inv.field f)).mp stale here]
  exact inv

lemma Untouched.longPress {state : GestureState} {center user : Coordinate} (inv : Untouched d vc)
    (safe : state ≠ .ended) : Untouched d (mapViewDidLongPress d state center user vc) := by
  obtain ⟨-, e⟩ | ⟨ended, -⟩ | ⟨-, -, e⟩ := longPress_cases d state center user vc
  · rw [e]
    refine ⟨inv.field, selectable_iff.mpr fun pin mem => ?_⟩
    exact selectable_iff.mp inv.selectable pin (Finset.mem_of_mem_erase mem)
  · exact absurd ended safe
  · rw [e]
    exact inv

lemma Untouched.not_selectable_ended {center user : Coordinate} (inv : Untouched d vc) :
    ¬ Selectable d (mapViewDidLongPress d .ended center user vc) := by
  intro safe
  rw [longPress_ended] at safe
  have bare := (selectable_iff.mp safe (.field .pointAno) (by simp [addToMap])).2
  apply bare
  simp [object, addToMap, setField, inv.field]

/-- The pins of a search can be tapped exactly when every placemark has a name. -/
lemma searchCompleted_selectable_iff {result : Option (List MKPlacemark)} {error : Option String} :
    Selectable d (searchCompleted result error vc) ↔
      ∀ placemark ∈ placed result error, placemark.name ≠ none := by
  have filled (placemark : MKPlacemark) :
      Filled (walkOf placemark).point ↔ placemark.name ≠ none := by
    simp [Filled, walkOf]
  rw [selectable_iff]
  constructor
  · intro safe placemark mem
    obtain ⟨i, bound, rfl⟩ := List.mem_iff_getElem.mp mem
    have pin := safe _ (mem_searchCompleted.mpr ⟨i, bound, rfl⟩)
    rwa [searchCompleted_object (List.getElem?_eq_getElem bound), filled] at pin
  · intro named pin mem
    obtain ⟨i, bound, rfl⟩ := mem_searchCompleted.mp mem
    rw [searchCompleted_object (List.getElem?_eq_getElem bound), filled]
    exact named _ (List.getElem_mem bound)

/-- From an untouched screen one event keeps every pin safe to tap exactly when it is safe. -/
lemma Untouched.step_iff (inv : Untouched d vc) (e : MapEvent) :
    Selectable d (step d vc e) ↔ EventSafe d e := by
  cases e with
  | didUpdateLocations user => exact inv.update_iff
  | longPress state center user =>
    constructor
    · rintro safe rfl
      exact inv.not_selectable_ended safe
    · exact fun ended => (inv.longPress ended).selectable
  | searchCompleted result error => exact searchCompleted_selectable_iff

lemma Untouched.step (inv : Untouched d vc) (e : MapEvent) (safe : EventSafe d e) :
    Untouched d (step d vc e) := by
  cases e with
  | didUpdateLocations user => exact inv.update safe
  | longPress state center user => exact inv.longPress safe
  | searchCompleted result error =>
    refine ⟨fun f => ?_, searchCompleted_selectable_iff.mpr safe⟩
    rw [ViewController.step, searchCompleted_field]
    exact inv.field f

lemma Untouched.init {store : Store} (load : viewDidLoad store = .ok vc) : Untouched d vc := by
  obtain ⟨place0, place1, shop0, shop1, -, -, -, -, rfl⟩ := viewDidLoad_inv load
  refine ⟨fun _ => rfl, selectable_iff.mpr fun pin mem => ?_⟩
  simp only [Finset.mem_insert, Finset.mem_singleton] at mem
  rcases mem with rfl | rfl <;> simp [object, shopPins, Filled]

/-- Every pin on the map can be tapped all through a run exactly when the run has no released long
press, no location update away from the null coordinate and no search result without a name. -/
theorem select_safe_iff {store : Store} (load : viewDidLoad store = .ok vc) (es : List MapEvent) :
    AllStates (step d) (Selectable d) vc es ↔ ∀ e ∈ es, EventSafe d e := by
  have init : Untouched d vc := Untouched.init load
  rw [← @allSteps_events _ _ (step d) _ vc]
  exact allStates_iff_allSteps (fun _ e inv => inv.step_iff e)
    (fun _ e inv safe => inv.step e safe) init init.selectable es

/-- A search that finds one named place keeps every pin safe to tap. -/
theorem select_safe_iff_search :
    let es : List MapEvent :=
      [.searchCompleted (some [⟨.zero, some "荒川遊園", none, none, none⟩]) none]
    AllStates (step .flat) (Selectable .flat) loaded es ↔ ∀ e ∈ es, EventSafe .flat e :=
  select_safe_iff viewDidLoad_seeds _

/-- Tapping the pin of a long press aborts the app. -/
theorem select_safe_fails :
    ∃ vc, viewDidLoad seeds = .ok vc ∧
      let released := exec (step .flat) vc
        [.longPress .began .zero .zero, .longPress .ended .zero .zero]
      .field .pointAno ∈ released.annotations ∧
        tapPin .flat .zero (.field .pointAno) released {} = .error .unwrappedNil := by
  refine ⟨loaded, viewDidLoad_seeds, ?_⟩
  simp only [exec_cons, exec_nil, step, longPress_began, longPress_ended]
  exact ⟨Finset.mem_insert_self _ _, rfl⟩

section Missing

/-- The text of an annotation of a field that no handler writes: the subtitle of the long-press pin,
the title of the other two. -/
def missing : Field → MKPointAnnotation → Option String
  | .pointAno, object => object.subtitle
  | _, object => object.title

lemma missing_setText (f : Field) (str : String) (object : MKPointAnnotation) :
    missing f (f.setText str object) = missing f object := by
  cases f <;> rfl

/-- The pins whose tap opens the popup: those of the shops, and the search results with a name. -/
def Tappable (vc : ViewController) : Pin → Prop
  | .field _ => False
  | .shop _ => True
  | .walk index => ∃ walk, vc.annotationList[index]? = some walk ∧ walk.title ≠ none

/-- No annotation of a field has both texts, the shop pins do, and search
results have a subtitle. -/
structure Equipped (vc : ViewController) : Prop where
  field : ∀ f, missing f (vc.field f) = none
  shop : ∀ pin, Filled (vc.shop pin)
  walk : ∀ walk ∈ vc.annotationList, walk.subtitle ≠ none

lemma Equipped.filled_iff (inv : Equipped vc) (pin : Pin) : Filled (vc.object pin) ↔
    Tappable vc pin := by
  cases pin with
  | field f =>
    have bare := inv.field f
    refine iff_of_false (fun filled => ?_) id
    cases f with
    | pointAno => exact filled.2 bare
    | annotationPin => exact filled.1 bare
    | anAsahiya => exact filled.1 bare
  | shop pin => exact iff_of_true (inv.shop pin) trivial
  | walk index =>
    unfold Tappable object
    cases found : vc.annotationList[index]? with
    | none => simp [Filled, found]
    | some walk =>
      have subtitle := inv.walk walk (List.mem_of_getElem? found)
      simp [Filled, found, subtitle]

lemma Equipped.init {store : Store} (load : viewDidLoad store = .ok vc) : Equipped vc := by
  obtain ⟨place0, place1, shop0, shop1, -, -, -, -, rfl⟩ := viewDidLoad_inv load
  refine ⟨fun f => by cases f <;> rfl, fun pin => ?_, nofun⟩
  cases pin <;> simp [shopPins, Filled]

lemma Equipped.step (inv : Equipped vc) (e : MapEvent) : Equipped (step d vc e) := by
  cases e with
  | didUpdateLocations user =>
    refine ⟨fun f => ?_, ?_, ?_⟩
    · rw [ViewController.step, didUpdateLocations_field]
      split
      · exact (missing_setText f _ _).trans (inv.field f)
      · exact inv.field f
    · rw [ViewController.step, didUpdateLocations_shop]
      exact inv.shop
    · rw [ViewController.step, didUpdateLocations_annotationList]
      exact inv.walk
  | longPress state center user =>
    refine ⟨fun f => ?_, ?_, ?_⟩
    · obtain ⟨-, e⟩ | ⟨-, e⟩ | ⟨-, -, e⟩ := longPress_cases d state center user vc
      · rw [ViewController.step, e]
        exact inv.field f
      · rw [ViewController.step, e]
        by_cases press : f = .pointAno
        · subst press
          simpa [addToMap, setField, missing] using inv.field .pointAno
        · simpa [addToMap, setField, press] using inv.field f
      · rw [ViewController.step, e]
        exact inv.field f
    · rw [ViewController.step, longPress_shop]
      exact inv.shop
    · rw [ViewController.step, longPress_annotationList]
      exact inv.walk
  | searchCompleted result error =>
    refine ⟨?_, ?_, fun walk mem => ?_⟩
    · rw [ViewController.step, searchCompleted_field]
      exact inv.field
    · rw [ViewController.step, searchCompleted_shop]
      exact inv.shop
    · rw [ViewController.step, searchCompleted_annotationList, List.mem_append, List.mem_map] at mem
      rcases mem with old | ⟨placemark, -, rfl⟩
      · exact inv.walk walk old
      · simp [walkOf]

end Missing

end ViewController

end SpecialtyMap.Map
