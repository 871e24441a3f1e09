import SpecialtyMap.Machine.Requests
import SpecialtyMap.Machine.Run
import SpecialtyMap.Map.Screen

/-!
# Searches under way

`searchBarSearchButtonClicked` starts a search and returns, and the completion handler runs later. A
`Session` is the screen together with the searches it has started, where any search under way may be
the next to complete, and where location updates and long presses may come at any time.

The completion handler knows nothing of the search it belongs to. It clears the map and shows what
it was given, so the pins are those of the search that completed last, whichever was started last
(`search_last_completed`), and a search that fails clears the map.
-/

namespace SpecialtyMap.Map
open SpecialtyMap.DB SpecialtyMap.Machine

inductive Outcome where
  | success (mapItems : List MKPlacemark)
  | failure (error : String)
deriving DecidableEq

def Outcome.result : Outcome → Option (List MKPlacemark)
  | .success mapItems => some mapItems
  | .failure _ => none

def Outcome.error : Outcome → Option String
  | .success _ => none
  | .failure error => some error

def Outcome.found (outcome : Outcome) : List MKPlacemark := outcome.result.getD []

/-- The map screen and its searches. -/
structure Session where
  screen : ViewController
  searches : Requests Outcome := {}

/-- What happens to a map screen with searches under way. -/
inductive SessionEvent where
  | searchBarSearchButtonClicked (text : Option String)
  | searchCompleted (position : Nat) (outcome : Outcome)
  | didUpdateLocations (user : Coordinate)
  | longPress (state : GestureState) (center user : Coordinate)

namespace ViewController
variable {d : DistanceFunction} {vc : ViewController}

/-- The search results on the map, in the order they were placed. -/
def searchPins (vc : ViewController) : List MapAnnotationWalk :=
  vc.annotationList.zipIdx.filterMap fun (walk, index) =>
    if .walk index ∈ vc.annotations then some walk else none

lemma searchPins_congr {vc' : ViewController} (list : vc'.annotationList = vc.annotationList)
    (pins : ∀ index, .walk index ∈ vc'.annotations ↔ .walk index ∈ vc.annotations) :
    searchPins vc' = searchPins vc := by
  simp only [searchPins, list, pins]

lemma searchPins_didUpdateLocations {user : Coordinate} :
    searchPins (didUpdateLocations d user vc) = searchPins vc :=
  searchPins_congr didUpdateLocations_annotationList fun index => by
    rw [mem_didUpdateLocations]
    simp

lemma searchPins_longPress {state : GestureState} {center user : Coordinate} :
    searchPins (mapViewDidLongPress d state center user vc) = searchPins vc :=
  searchPins_congr longPress_annotationList fun _ => mem_longPress (by simp)

/-- A completion replaces the search results on the map by its own. -/
lemma searchPins_searchCompleted {result : Option (List MKPlacemark)} {error : Option String} :
    searchPins (searchCompleted result error vc) = (placed result error).map walkOf := by
  have on_map (index : Nat) : .walk index ∈ (searchCompleted result error vc).annotations ↔
      ∃ i < (placed result error).length, index = vc.annotationList.length + i := by
    rw [mem_searchCompleted]
    simp
  -- the numbers of earlier searches are off the map
  have old : vc.annotationList.zipIdx.filterMap (fun (walk, index) =>
      if .walk index ∈ (searchCompleted result error vc).annotations then some walk
      else none) = [] := by
    rw [List.filterMap_eq_nil_iff]
    rintro ⟨walk, index⟩ mem
    have bound : index < vc.annotationList.length := by
      simpa using List.snd_lt_of_mem_zipIdx mem
    have gone : .walk index ∉ (searchCompleted result error vc).annotations := by
      rw [on_map]
      rintro ⟨i, -, rfl⟩
      omega
    simp [gone]
  -- the numbers from there on are those just placed
  have new : (((placed result error).map walkOf).zipIdx vc.annotationList.length).filterMap
      (fun (walk, index) =>
        if .walk index ∈ (searchCompleted result error vc).annotations then some walk else none) =
      (placed result error).map walkOf := by
    have all : ∀ x ∈ ((placed result error).map walkOf).zipIdx vc.annotationList.length,
        (if .walk x.2 ∈ (searchCompleted result error vc).annotations then some x.1 else none) =
          some x.1 := by
      rintro ⟨walk, index⟩ mem
      have low := List.le_snd_of_mem_zipIdx mem
      have high := List.snd_lt_add_of_mem_zipIdx mem
      rw [List.length_map] at high
      have present : .walk index ∈ (searchCompleted result error vc).annotations :=
        (on_map index).mpr ⟨index - vc.annotationList.length, by omega, by omega⟩
      exact if_pos present
    rw [List.filterMap_congr all, List.filterMap_eq_map', List.zipIdx_map_fst]
  rw [searchPins, searchCompleted_annotationList, List.zipIdx_append, List.filterMap_append, old,
    Nat.zero_add, new, List.nil_append]

end ViewController

namespace Session
open ViewController
variable {d : DistanceFunction} {vc : ViewController} {s : Session}

/-- One event of the screen with its searches. An empty text starts no search, and only a search
under way completes. -/
def step (d : DistanceFunction) (s : Session) : SessionEvent → Session
  | .searchBarSearchButtonClicked text =>
    if some "" = text then s else { s with searches := s.searches.issue }
  | .searchCompleted position outcome =>
    match s.searches.outstanding[position]? with
    | some _ =>
      { screen := searchCompleted outcome.result outcome.error s.screen
        searches := s.searches.answer position outcome }
    | none => s
  | .didUpdateLocations user => { s with screen := didUpdateLocations d user s.screen }
  | .longPress state center user =>
    { s with screen := mapViewDidLongPress d state center user s.screen }

/-- What the search that completed last found. -/
def lastCompleted (answered : List (Nat × Outcome)) : List MKPlacemark :=
  (answered.getLast?.map fun answer => answer.2.found).getD []

/-- The search with this ticket is the last issued of the searches that succeeded. -/
def IssuedLast (answered : List (Nat × Outcome)) (ticket : Nat)
    (mapItems : List MKPlacemark) : Prop :=
  (ticket, .success mapItems) ∈ answered ∧
    ∀ other items, (other, .success items) ∈ answered → other ≤ ticket

lemma placed_outcome (outcome : Outcome) : placed outcome.result outcome.error = outcome.found := by
  cases outcome <;> rfl

lemma step_completed {position ticket : Nat} {outcome : Outcome}
    (under_way : s.searches.outstanding[position]? = some ticket) :
    step d s (.searchCompleted position outcome) =
      { screen := searchCompleted outcome.result outcome.error s.screen
        searches := s.searches.answer position outcome } := by
  rw [step, under_way]

/-- The map shows what the search that completed last found, and no search is lost. -/
structure Consistent (s : Session) : Prop where
  shown : searchPins s.screen = (lastCompleted s.searches.answered).map walkOf
  settled : s.searches.Settled

lemma Consistent.init {store : Store} (load : viewDidLoad store = .ok vc) :
    Consistent { screen := vc } := by
  obtain ⟨_, _, _, _, -, -, -, -, rfl⟩ := viewDidLoad_inv load
  exact ⟨rfl, Requests.settled_init⟩

lemma Consistent.step (inv : Consistent s) (e : SessionEvent) : Consistent (step d s e) := by
  cases e with
  | searchBarSearchButtonClicked text =>
    rw [Session.step]
    split
    · exact inv
    · exact ⟨inv.shown, inv.settled.issue⟩
  | searchCompleted position outcome =>
    cases under_way : s.searches.outstanding[position]? with
    | none =>
      have same : Session.step d s (.searchCompleted position outcome) = s := by
        rw [Session.step, under_way]
      rw [same]
      exact inv
    | some ticket =>
      rw [step_completed under_way]
      refine ⟨?_, inv.settled.answer⟩
      rw [searchPins_searchCompleted, placed_outcome, Requests.answer_some under_way]
      simp [lastCompleted]
  | didUpdateLocations user =>
    exact ⟨searchPins_didUpdateLocations.trans inv.shown, inv.settled⟩
  | longPress state center user =>
    exact ⟨searchPins_longPress.trans inv.shown, inv.settled⟩

lemma consistent_run {store : Store} (load : viewDidLoad store = .ok vc) (es : List SessionEvent) :
    Consistent (exec (Session.step d) { screen := vc } es) :=
  exec_invariant (fun _ e inv => inv.step e) (Consistent.init load) es

/-- What a session does to its screen is a run of the map screen, with each search
where it completes. -/
theorem screen_run (s : Session) (es : List SessionEvent) :
    ∃ ms, (exec (step d) s es).screen = exec (ViewController.step d) s.screen ms := by
  induction es generalizing s with
  | nil => exact ⟨[], rfl⟩
  | cons e es ih =>
    obtain ⟨ms, run⟩ := ih (step d s e)
    cases e with
    | searchBarSearchButtonClicked text =>
      refine ⟨ms, run.trans ?_⟩
      rw [step]
      split <;> rfl
    | searchCompleted position outcome =>
      cases under_way : s.searches.outstanding[position]? with
      | none =>
        refine ⟨ms, run.trans ?_⟩
        rw [step, under_way]
      | some ticket =>
        refine ⟨.searchCompleted outcome.result outcome.error :: ms, run.trans ?_⟩
        rw [step_completed under_way]
        rfl
    | didUpdateLocations user => exact ⟨.didUpdateLocations user :: ms, run⟩
    | longPress state center user => exact ⟨.longPress state center user :: ms, run⟩

lemma failure_clears {position ticket : Nat} {error : String}
    (under_way : s.searches.outstanding[position]? = some ticket) :
    (step d s (.searchCompleted position (.failure error))).screen.annotations = ∅ := by
  rw [step_completed under_way]
  rfl

/-- The search pins on the map are those of the search that completed last, whatever the order of
completion, and a search that fails leaves no pin on the map. -/
theorem search_last_completed {store : Store} (load : viewDidLoad store = .ok vc)
    (es : List SessionEvent) :
    let s := exec (step d) { screen := vc } es
    searchPins s.screen = (lastCompleted s.searches.answered).map walkOf ∧
    ∀ position error, position < s.searches.outstanding.length →
      (step d s (.searchCompleted position (.failure error))).screen.annotations = ∅ := by
  intro s
  refine ⟨(consistent_run load es).shown, fun position error bound => ?_⟩
  exact failure_clears (List.getElem?_eq_getElem bound)

/-- Once no search is under way, every search that was started has completed once. -/
theorem completed_once {store : Store} (load : viewDidLoad store = .ok vc)
    (es : List SessionEvent) :
    let s := exec (step d) { screen := vc } es
    s.searches.outstanding = [] →
      ∀ ticket < s.searches.issued, ∃! outcome, (ticket, outcome) ∈ s.searches.answered := by
  intro s idle ticket issued
  have settled : s.searches.Settled := (consistent_run load es).settled
  obtain ⟨outcome, mem⟩ := settled.complete idle issued
  exact ⟨outcome, mem, fun other found => settled.unique found mem⟩

/-- Two searches of which the second completes first. -/
def overtaken : List SessionEvent :=
  [.searchBarSearchButtonClicked (some "パン"), .searchBarSearchButtonClicked (some "蕎麦"),
    .searchCompleted 1 (.success [⟨⟨md2.latitude, md2.longitude⟩, some "蕎麦", none, none, none⟩]),
    .searchCompleted 0 (.success [⟨⟨md1.latitude, md1.longitude⟩, some "パン", none, none, none⟩])]

/-- The overtaken search is shown, and no pin is left when another search fails. -/
theorem search_last_completed_overtaken :
    let s := exec (step .flat) { screen := loaded } overtaken
    searchPins s.screen = (lastCompleted s.searches.answered).map walkOf ∧
    ∀ position error, position < s.searches.outstanding.length →
      (step .flat s (.searchCompleted position (.failure error))).screen.annotations = ∅ :=
  search_last_completed viewDidLoad_seeds overtaken

/-- The search issued last is not the one shown when an older search completes after it, and a
search that fails takes the shop pins away. -/
theorem search_overtaken_fails :
    ∃ vc, viewDidLoad seeds = .ok vc ∧
      (let s := exec (step .flat) { screen := vc } overtaken
       s.searches.outstanding = [] ∧
       ∃ mapItems, IssuedLast s.searches.answered 1 mapItems ∧
         searchPins s.screen ≠ mapItems.map walkOf) ∧
      let s := exec (step .flat) { screen := vc } [.searchBarSearchButtonClicked (some "パン")]
      (step .flat s (.searchCompleted 0 (.failure "network"))).screen.annotations ≠
        s.screen.annotations := by
  refine ⟨loaded, viewDidLoad_seeds, ⟨rfl, _,
    ⟨List.mem_cons_self, fun other items mem => ?_⟩, ?_⟩, ?_⟩
  · have tickets : ∀ answer ∈ (exec (step .flat) { screen := loaded } overtaken).searches.answered,
        answer.1 ≤ 1 := by
      decide
    exact tickets _ mem
  · rw [(consistent_run viewDidLoad_seeds overtaken).shown]
    decide
  · intro s
    rw [failure_clears (show s.searches.outstanding[0]? = some 0 from rfl)]
    show ∅ ≠ loaded.annotations
    decide

end Session

end SpecialtyMap.Map
