import SpecialtyMap.Map.Screen
import SpecialtyMap.Machine.Run

/-!
# Where the pins come from

A `History` runs beside the screen and remembers what the events said: the release point of the last
long press, whether a press has begun since, and the placemarks the searches returned. A pin has an
origin if the store or the history accounts for it, and a screen is legitimate if all its pins do.

Presses and searches keep the screen legitimate. A location update does not: the fields `annotation`
and `anAsahiya` are never the pins `viewDidLoad` placed, so relabelling them puts them on the map,
at the null coordinate, and relabelling `pointAno` puts it back after a press or a search removed
it. `origin_iff` says that these are the only ways to lose an origin.
-/

namespace SpecialtyMap.Map
open SpecialtyMap.DB SpecialtyMap.Machine

/-- What the events of a run said about presses and searches. -/
structure History where
  released : Option Coordinate := none
  standing : Bool := false
  found : List MKPlacemark := []

def History.record (h : History) : MapEvent → History
  | .didUpdateLocations _ => h
  | .longPress state center _ =>
    if state = .began then { h with standing := false }
    else if state = .ended then { h with released := some center, standing := true }
    else h
  | .searchCompleted result _ => { h with found := h.found ++ result.getD [] }

namespace ViewController
variable {d : DistanceFunction} {vc : ViewController} {h : History} {store : Store}

def recordedStep (d : DistanceFunction) (s : ViewController × History) (e : MapEvent) :
    ViewController × History :=
  (step d s.1 e, s.2.record e)

/-- The store or the history accounts for a pin. -/
def HasOrigin (store : Store) (s : ViewController × History) : Pin → Prop
  | .shop shop => ∃ place ∈ store.maindata,
      (s.1.shop shop).coordinate = ⟨place.latitude, place.longitude⟩
  | .walk index => ∃ walk, s.1.annotationList[index]? = some walk ∧
      ∃ placemark ∈ s.2.found, walk.coordinate = placemark.coordinate
  | .field .pointAno => s.2.standing ∧ s.2.released = some (s.1.field .pointAno).coordinate
  | .field _ => False

/-- Every pin on the map has an origin. -/
def Legitimate (store : Store) (s : ViewController × History) : Prop :=
  ∀ pin ∈ s.1.annotations, HasOrigin store s pin

/-- A location update puts no pin on the map that was not there. -/
def AddsNothing (d : DistanceFunction) (s : ViewController × History) : MapEvent → Prop
  | .didUpdateLocations user => (didUpdateLocations d user s.1).annotations ⊆ s.1.annotations
  | _ => True

/-- A location update comes while the user is at the null coordinate of the fresh annotations, and
finds the long-press pin on the map or with nothing to relabel. -/
def Harmless (d : DistanceFunction) (s : ViewController × History) : MapEvent → Prop
  | .didUpdateLocations user => d.distance user .zero = 0 ∧
      (.field .pointAno ∈ s.1.annotations ∨ ¬ Stale d user .pointAno s.1)
  | _ => True

/-- What harmless events keep: all pins have an origin and the two unused fields are fresh. -/
structure Traced (store : Store) (s : ViewController × History) : Prop where
  legitimate : Legitimate store s
  fresh : ∀ f ≠ .pointAno, s.1.field f = {}

lemma Traced.init (load : viewDidLoad store = .ok vc) : Traced store (vc, {}) := by
  obtain ⟨place0, place1, shop0, shop1, read0, read1, -, -, rfl⟩ := viewDidLoad_inv load
  refine ⟨fun pin mem => ?_, fun _ _ => rfl⟩
  simp only [Finset.mem_insert, Finset.mem_singleton] at mem
  rcases mem with rfl | rfl
  · exact ⟨place1, List.mem_of_getElem? read1, rfl⟩
  · exact ⟨place0, List.mem_of_getElem? read0, rfl⟩

section Location
variable {user : Coordinate}

lemma HasOrigin.update {pin : Pin} (origin : HasOrigin store (vc, h) pin) :
    HasOrigin store (didUpdateLocations d user vc, h) pin := by
  cases pin with
  | shop shop => simpa [HasOrigin] using origin
  | walk index => simpa [HasOrigin] using origin
  | field f =>
    cases f with
    | pointAno => simpa [HasOrigin, didUpdateLocations_coordinate] using origin
    | annotationPin => exact origin
    | anAsahiya => exact origin

lemma Traced.adds_nothing (inv : Traced store (vc, h))
    (harmless : Harmless d (vc, h) (.didUpdateLocations user)) :
    (didUpdateLocations d user vc).annotations ⊆ vc.annotations := by
  obtain ⟨here, pointAno⟩ := harmless
  intro pin mem
  rcases mem_didUpdateLocations.mp mem with mem | ⟨f, rfl, stale⟩
  · exact mem
  · have used : f = .pointAno := by
      by_contra unused
      exact (stale_iff_of_fresh (inv.fresh f unused)).mp stale here
    subst used
    exact pointAno.resolve_right (not_not_intro stale)

/-- A location update keeps a traced screen traced exactly when it is harmless. -/
lemma Traced.update_iff (inv : Traced store (vc, h)) :
    AddsNothing d (vc, h) (.didUpdateLocations user) ∧
      Legitimate store (didUpdateLocations d user vc, h) ↔
      Harmless d (vc, h) (.didUpdateLocations user) := by
  constructor
  · rintro ⟨nothing, legitimate⟩
    constructor
    · by_contra away
      -- the unused `annotation` comes onto the map
      have stale := (stale_iff_of_fresh (inv.fresh .annotationPin (by decide))).mpr away
      exact legitimate (.field .annotationPin) (mem_didUpdateLocations.mpr (.inr ⟨_, rfl, stale⟩))
    · by_cases stale : Stale d user .pointAno vc
      · exact .inl (nothing (mem_didUpdateLocations.mpr (.inr ⟨_, rfl, stale⟩)))
      · exact .inr stale
  · intro harmless
    have nothing := inv.adds_nothing harmless
    exact ⟨nothing, fun pin mem => (inv.legitimate pin (nothing mem)).update⟩

lemma Traced.update (inv : Traced store (vc, h))
    (harmless : Harmless d (vc, h) (.didUpdateLocations user)) :
    Traced store (didUpdateLocations d user vc, h) := by
  refine ⟨(inv.update_iff.mpr harmless).2, fun f unused => ?_⟩
  have current : ¬ Stale d user f vc := fun stale =>
    (stale_iff_of_fresh (inv.fresh f unused)).mp stale harmless.1
  rw [didUpdateLocations_field, if_neg current]
  exact inv.fresh f unused

end Location

section LongPress
variable {state : GestureState} {center user : Coordinate}

lemma record_longPress_found : (h.record (.longPress state center user)).found = h.found := by
  rw [History.record]
  split_ifs <;> rfl

lemma HasOrigin.longPress {pin : Pin} (other : pin ≠ .field .pointAno)
    (origin : HasOrigin store (vc, h) pin) :
    HasOrigin store (mapViewDidLongPress d state center user vc,
      h.record (.longPress state center user)) pin := by
  cases pin with
  | shop shop => simpa [HasOrigin] using origin
  | walk index => simpa [HasOrigin, record_longPress_found] using origin
  | field f =>
    cases f with
    | pointAno => exact absurd rfl other
    | annotationPin => exact origin
    | anAsahiya => exact origin

/-- The start of a press takes its pin away, the release puts it at the release point. -/
lemma Traced.longPress (inv : Traced store (vc, h)) :
    Traced store (mapViewDidLongPress d state center user vc,
      h.record (.longPress state center user)) := by
  refine ⟨fun pin mem => ?_, fun f unused => (longPress_field unused).trans (inv.fresh f unused)⟩
  by_cases own : pin = .field .pointAno
  · subst own
    obtain ⟨-, e⟩ | ⟨rfl, e⟩ | ⟨began, ended, e⟩ := longPress_cases d state center user vc
    · rw [e] at mem
      exact absurd mem (Finset.notMem_erase _ _)
    · rw [e]
      simp [HasOrigin, History.record, addToMap, setField]
    · rw [e] at mem ⊢
      rw [History.record, if_neg began, if_neg ended]
      exact inv.legitimate _ mem
  · exact (inv.legitimate pin ((mem_longPress own).mp mem)).longPress own

end LongPress

/-- After a completion every pin stands at a placemark the search returned. -/
lemma Traced.searchCompleted {result : Option (List MKPlacemark)} {error : Option String}
    (inv : Traced store (vc, h)) :
    Traced store (searchCompleted result error vc, h.record (.searchCompleted result error)) := by
  refine ⟨fun pin mem => ?_, fun f unused => ?_⟩
  · obtain ⟨i, bound, rfl⟩ := mem_searchCompleted.mp mem
    have at_i := List.getElem?_eq_getElem bound
    refine ⟨walkOf (placed result error)[i], ?_, (placed result error)[i], ?_, rfl⟩
    · rw [searchCompleted_annotationList, List.getElem?_append_right (Nat.le_add_right _ _),
        Nat.add_sub_cancel_left, List.getElem?_map, at_i]
      rfl
    · exact List.mem_append_right _ (placed_subset (List.getElem_mem bound))
  · rw [searchCompleted_field]
    exact inv.fresh f unused

lemma Traced.step_iff {s : ViewController × History} (inv : Traced store s) (e : MapEvent) :
    AddsNothing d s e ∧ Legitimate store (recordedStep d s e) ↔ Harmless d s e := by
  cases e with
  | didUpdateLocations user => exact inv.update_iff
  | longPress state center user =>
    exact ⟨fun _ => trivial, fun _ => ⟨trivial, inv.longPress.legitimate⟩⟩
  | searchCompleted result error =>
    exact ⟨fun _ => trivial, fun _ => ⟨trivial, inv.searchCompleted.legitimate⟩⟩

lemma Traced.step {s : ViewController × History} (inv : Traced store s) (e : MapEvent)
    (harmless : Harmless d s e) : Traced store (recordedStep d s e) := by
  cases e with
  | didUpdateLocations user => exact inv.update harmless
  | longPress state center user => exact inv.longPress
  | searchCompleted result error => exact inv.searchCompleted

/-- Every pin has an origin all through a run, and its location updates add no pin, exactly when its
location updates are harmless. -/
theorem origin_iff (load : viewDidLoad store = .ok vc) (es : List MapEvent) :
    AllStates (recordedStep d) (Legitimate store) (vc, {}) es ∧
      AllSteps (recordedStep d) (AddsNothing d) (vc, {}) es ↔
      AllSteps (recordedStep d) (Harmless d) (vc, {}) es := by
  have init : Traced store (vc, {}) := Traced.init load
  exact allStates_allSteps_iff (fun _ e inv => inv.step_iff e)
    (fun _ e inv harmless => inv.step e harmless) init init.legitimate es

/-- A press, a search and a press again, and a location update in between. -/
theorem origin_iff_presses :
    let place : Coordinate := ⟨md1.latitude, md1.longitude⟩
    let es : List MapEvent := [.longPress .ended place .zero, .didUpdateLocations .zero,
      .searchCompleted (some [⟨place, none, none, none, none⟩]) none, .longPress .began place place]
    AllStates (recordedStep .flat) (Legitimate seeds) (loaded, {}) es ∧
      AllSteps (recordedStep .flat) (AddsNothing .flat) (loaded, {}) es ↔
      AllSteps (recordedStep .flat) (Harmless .flat) (loaded, {}) es :=
  origin_iff viewDidLoad_seeds _

/-- The first location update puts the unused `annotation` on the map. -/
theorem origin_fails :
    ∃ vc, viewDidLoad seeds = .ok vc ∧
      let user : Coordinate := ⟨md1.latitude, md1.longitude⟩
      let s := exec (recordedStep .flat) (vc, {}) [.didUpdateLocations user]
      .field .annotationPin ∉ vc.annotations ∧ .field .annotationPin ∈ s.1.annotations ∧
        ¬ Legitimate seeds s := by
  refine ⟨loaded, viewDidLoad_seeds, by decide, ?_⟩
  have stale : Stale .flat ⟨md1.latitude, md1.longitude⟩ .annotationPin loaded :=
    ⟨by decide, fun e => by cases e⟩
  have mem := mem_didUpdateLocations.mpr (.inr ⟨_, rfl, stale⟩)
  exact ⟨mem, fun legitimate => legitimate _ mem⟩

end ViewController

end SpecialtyMap.Map
