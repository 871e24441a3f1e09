import SpecialtyMap.DB.Record
import SpecialtyMap.Map.Popup
import SpecialtyMap.Number.Decimal
import Mathlib.Data.Finset.Basic
import Mathlib.Logic.Function.Basic

/-!
# The map screen

`ViewController` of the map tab, as far as its pins go. A pin is an annotation object, so a `Pin` is
an identity: one of the three point annotations held in fields, one of the two that `viewDidLoad`
builds in local variables of the same names, or a search result, numbered in the order of
`annotationList`. The map view holds a set of these; what they show is held by the screen.

`didUpdateLocations` relabels the annotations of the fields only, which is why the same loop body
`refresh` serves all three, and why the pins of `viewDidLoad` are never among them. The facts later
modules use are the reading of the state after each handler: `mem_didUpdateLocations` for the pins
and `didUpdateLocations_field` for the texts, and the `searchCompleted_*` lemmas for a search.

Distances are exact rationals given by a function of two coordinates, and the location of the user
is an input of every handler that reads it.
-/

namespace SpecialtyMap.Map
open SpecialtyMap.DB SpecialtyMap.Number

structure Coordinate where
  latitude : Double
  longitude : Double
deriving DecidableEq

def Coordinate.zero : Coordinate := ⟨.zero, .zero⟩

/-- `CLLocation.distance(from:)`, in metres. -/
structure DistanceFunction where
  distance : Coordinate → Coordinate → ℚ
  nonneg : ∀ a b, 0 ≤ distance a b
  self : ∀ a, distance a a = 0

/-- A distance function: every place is 100 m away from every other. -/
def DistanceFunction.flat : DistanceFunction where
  distance a b := if a = b then 0 else 100
  nonneg a b := by split <;> norm_num
  self a := if_pos rfl

structure MKPointAnnotation where
  coordinate : Coordinate := .zero
  title : Option String := none
  subtitle : Option String := none
deriving DecidableEq

/-- The colours a `MapAnnotationWalk` is given. -/
inductive PinColor where
  | red
  | green
deriving DecidableEq

structure MapAnnotationWalk extends point : MKPointAnnotation where
  pinColor : PinColor := .red
deriving DecidableEq

/-- The point annotations that are fields of the screen: `pointAno`,
`annotation` and `anAsahiya`. -/
inductive Field where
  | pointAno
  | annotationPin
  | anAsahiya
deriving DecidableEq

/-- The text of an annotation that carries the distance: the title of the long-press pin, the
subtitle of the other two. -/
def Field.text : Field → MKPointAnnotation → Option String
  | .pointAno, object => object.title
  | _, object => object.subtitle

/-- Writes the text that carries the distance. -/
def Field.setText : Field → String → MKPointAnnotation → MKPointAnnotation
  | .pointAno, str, object => { object with title := some str }
  | _, str, object => { object with subtitle := some str }

/-- The point annotations `viewDidLoad` holds in local variables: `annotation` and `anAsahiya`. -/
inductive ShopPin where
  | annotationPin
  | anAsahiya
deriving DecidableEq

inductive Pin where
  | field (field : Field)
  | shop (shop : ShopPin)
  | walk (index : Nat)
deriving DecidableEq

inductive GestureState where
  | possible
  | began
  | changed
  | ended
  | cancelled
  | failed
deriving DecidableEq

structure MKPlacemark where
  coordinate : Coordinate
  name : Option String := none
  postalCode : Option String := none
  administrativeArea : Option String := none
  locality : Option String := none
deriving DecidableEq

/-- The texts and the distance of the tapped pin. -/
structure Tap where
  tapPointTitle : Option String := some ""
  tapStreetAddr : Option String := some ""
  tapDistance : ℚ := 0

/-- `ViewController`, with the annotations of its map view. -/
structure ViewController where
  annotations : Finset Pin := ∅
  field : Field → MKPointAnnotation := fun _ => {}
  shop : ShopPin → MKPointAnnotation := fun _ => {}
  annotationList : List MapAnnotationWalk := []
  tap : Tap := {}

namespace ViewController

def object (vc : ViewController) : Pin → MKPointAnnotation
  | .field f => vc.field f
  | .shop s => vc.shop s
  | .walk index => (vc.annotationList[index]?.map MapAnnotationWalk.point).getD {}

/-- `mapView.addAnnotation`. -/
def addToMap (pin : Pin) (vc : ViewController) : ViewController :=
  { vc with annotations := insert pin vc.annotations }

/-- `mapView.removeAnnotation`. -/
def removeFromMap (pin : Pin) (vc : ViewController) : ViewController :=
  { vc with annotations := vc.annotations.erase pin }

def setField (f : Field) (object : MKPointAnnotation) (vc : ViewController) : ViewController :=
  { vc with field := Function.update vc.field f object }

/-- The two shop pins, from the first two rows of `Maindata` and of `Shop`. The bakery stands at the
second place; the noodle shop shows its name twice. -/
def shopPins (place0 place1 : Maindata) (shop0 shop1 : Shop) : ShopPin → MKPointAnnotation
  | .annotationPin =>
    ⟨⟨place1.latitude, place1.longitude⟩, some shop0.shopName, some shop0.shopAddr⟩
  | .anAsahiya => ⟨⟨place0.latitude, place0.longitude⟩, some shop1.shopName, some shop1.shopName⟩

/-- `viewDidLoad`: the reads of `print` come first, then the reads of the pins. -/
def viewDidLoad (store : Store) : Except Trap ViewController := do
  let results := store.maindata
  let resShops := store.shop
  let _ ← subscript results 0
  let place1 ← subscript results 1
  let shop0 ← subscript resShops 0
  let place0 ← subscript results 0
  let shop1 ← subscript resShops 1
  return {
    annotations := {.shop .annotationPin, .shop .anAsahiya}
    shop := shopPins place0 place1 shop0 shop1
  }

/-- The text of a distance in metres and yards. -/
def label (distance : ℚ) : String :=
  (truncate distance).repr ++ " m" ++ " / " ++ (truncate (distance * (109361 / 100000))).repr ++
    " yard"

section Location
variable (d : DistanceFunction) (user : Coordinate)

def fieldLabel (f : Field) (vc : ViewController) : String :=
  label (d.distance user (vc.field f).coordinate)

/-- One third of `didUpdateLocations`: a new text for the annotation of a field, which is
then put on the map. -/
def refresh (f : Field) (vc : ViewController) : ViewController :=
  let distance := d.distance user (vc.field f).coordinate
  if 0 ≠ distance then
    let str := label distance
    if f.text (vc.field f) ≠ some str then
      addToMap (.field f) (setField f (f.setText str (vc.field f)) vc)
    else vc
  else vc

def didUpdateLocations (vc : ViewController) : ViewController :=
  refresh d user .anAsahiya (refresh d user .annotationPin (refresh d user .pointAno vc))

end Location

/-- `mapViewDidLongPress`, with the touched coordinate. -/
def mapViewDidLongPress (d : DistanceFunction) (state : GestureState) (center user : Coordinate)
    (vc : ViewController) : ViewController :=
  if state = .began then
    removeFromMap (.field .pointAno) vc
  else if state = .ended then
    let str := label (d.distance user center)
    let vc :=
      if (vc.field .pointAno).title ≠ some str then
        addToMap (.field .pointAno)
          (setField .pointAno { vc.field .pointAno with title := some str } vc)
      else vc
    addToMap (.field .pointAno)
      (setField .pointAno { vc.field .pointAno with coordinate := center } vc)
  else vc

def walkOf (placemark : MKPlacemark) : MapAnnotationWalk where
  coordinate := placemark.coordinate
  title := placemark.name
  subtitle := some ("〒" ++ placemark.postalCode.getD "" ++ "\n" ++
    placemark.administrativeArea.getD "" ++ placemark.locality.getD "" ++ "\n" ++
    placemark.name.getD "")
  pinColor := .green

/-- Appends the annotation of a search result to `annotationList` and puts it on the map. -/
def addWalk (placemark : MKPlacemark) (vc : ViewController) : ViewController :=
  addToMap (.walk vc.annotationList.length)
    { vc with annotationList := vc.annotationList ++ [walkOf placemark] }

/-- The completion handler of `MKLocalSearch.start`. -/
def searchCompleted (result : Option (List MKPlacemark)) (error : Option String)
    (vc : ViewController) : ViewController :=
  let vc := { vc with annotations := ∅ }
  match result with
  | none => vc
  | some mapItems =>
    mapItems.foldl (fun vc placemark => if error = none then addWalk placemark vc else vc) vc

/-- `x ?? default` where only the outer optional is tested. -/
def coalesce (x : Option (Option String)) (default : String) : Option String :=
  x.getD (some default)

/-- `mapView(_:didSelect:)` on the annotation of the selected view. The requirements `title` and
`subtitle` of `MKAnnotation` are optional themselves, so `annotation?.title` is doubly optional. -/
def mapViewDidSelect (d : DistanceFunction) (user : Coordinate)
    (selected : Option MKPointAnnotation)
    (vc : ViewController) (delegate : AppDelegate) :
      Except Trap (ViewController × AppDelegate) := do
  let title := coalesce (selected.map (·.title)) ""
  let subtitle := coalesce (selected.map (·.subtitle)) ""
  let coordinate ← unwrap (selected.map (·.coordinate))
  let tap := {
    tapPointTitle := title
    tapStreetAddr := subtitle
    tapDistance := d.distance user coordinate
  }
  return ({ vc with tap }, { delegate with nameValue := title, streetAddrValue := subtitle })

/-- Tapping a pin: `mapView(_:didSelect:)` presents the popup, whose view loads. -/
def tapPin (d : DistanceFunction) (user : Coordinate) (pin : Pin) (vc : ViewController)
    (delegate : AppDelegate) : Except Trap (ViewController × AppDelegate × Popup) := do
  let (vc, delegate) ← mapViewDidSelect d user (some (vc.object pin)) vc delegate
  let popup ← SemiModalViewController.viewDidLoad delegate
  return (vc, delegate, popup)

end ViewController

/-- What happens to the map screen after `viewDidLoad`. -/
inductive MapEvent where
  | didUpdateLocations (user : Coordinate)
  | longPress (state : GestureState) (center user : Coordinate)
  | searchCompleted (result : Option (List MKPlacemark)) (error : Option String)

def ViewController.step (d : DistanceFunction) (vc : ViewController) : MapEvent → ViewController
  | .didUpdateLocations user => didUpdateLocations d user vc
  | .longPress state center user => mapViewDidLongPress d state center user vc
  | .searchCompleted result error => searchCompleted result error vc

namespace ViewController
variable {d : DistanceFunction} {user : Coordinate} {vc : ViewController}

section Load

/-- A screen that has loaded holds the two shop pins and nothing else. -/
lemma viewDidLoad_inv {store : Store} (load : viewDidLoad store = .ok vc) :
    ∃ place0 place1 shop0 shop1,
      store.maindata[0]? = some place0 ∧ store.maindata[1]? = some place1 ∧
      store.shop[0]? = some shop0 ∧ store.shop[1]? = some shop1 ∧
      vc = { annotations := {.shop .annotationPin, .shop .anAsahiya},
             shop := shopPins place0 place1 shop0 shop1 } := by
  obtain ⟨_, -, load⟩ := bind_ok load
  obtain ⟨place1, read1, load⟩ := bind_ok load
  obtain ⟨shop0, readS0, load⟩ := bind_ok load
  obtain ⟨place0, read0, load⟩ := bind_ok load
  obtain ⟨shop1, readS1, load⟩ := bind_ok load
  rw [subscript_eq_ok_iff] at read0 read1 readS0 readS1
  injection load with e
  exact ⟨place0, place1, shop0, shop1, read0, read1, readS0, readS1, e.symm⟩

/-- The screen of a store with the seed records. -/
def loaded : ViewController where
  annotations := {.shop .annotationPin, .shop .anAsahiya}
  shop := shopPins md1 md2 ⟨"マルホベーカリー", "東京都 荒川区 西尾久 2-3-6"⟩
    ⟨"日本そば朝日屋総本店", "東京都 荒川区 西尾久 2-4-15"⟩

lemma viewDidLoad_seeds : viewDidLoad seeds = .ok loaded := rfl

end Load

section Location
variable {f g : Field}

/-- The relabelling branch of `refresh` is taken. -/
def Stale (d : DistanceFunction) (user : Coordinate) (f : Field) (vc : ViewController) : Prop :=
  0 ≠ d.distance user (vc.field f).coordinate ∧ f.text (vc.field f) ≠ some (fieldLabel d user f vc)

instance : Decidable (Stale d user f vc) := inferInstanceAs (Decidable (_ ∧ _))

/-- An annotation nothing was written to is out of date away from its coordinate. -/
lemma stale_iff_of_fresh (fresh : vc.field f = {}) :
    Stale d user f vc ↔ d.distance user .zero ≠ 0 := by
  have blank : f.text {} = none := by cases f <;> rfl
  rw [Stale, fresh, blank]
  simp [eq_comm]

lemma refresh_eq : refresh d user f vc =
    if Stale d user f vc then
      addToMap (.field f) (setField f (f.setText (fieldLabel d user f vc) (vc.field f)) vc)
    else vc := by
  unfold refresh Stale fieldLabel
  by_cases zero : 0 ≠ d.distance user (vc.field f).coordinate <;> simp [zero]

lemma mem_refresh {pin : Pin} : pin ∈ (refresh d user f vc).annotations ↔
    pin ∈ vc.annotations ∨ (pin = .field f ∧ Stale d user f vc) := by
  rw [refresh_eq]
  split
  case isTrue stale => simp [addToMap, setField, stale, or_comm]
  case isFalse fresh => simp [fresh]

lemma refresh_self : (refresh d user f vc).field f =
    if Stale d user f vc then f.setText (fieldLabel d user f vc) (vc.field f) else vc.field f := by
  rw [refresh_eq]
  split <;> simp [addToMap, setField]

lemma refresh_other (ne : g ≠ f) : (refresh d user f vc).field g = vc.field g := by
  rw [refresh_eq]
  split <;> simp [addToMap, setField, ne]

@[simp] lemma refresh_shop : (refresh d user f vc).shop = vc.shop := by
  rw [refresh_eq]
  split <;> rfl

@[simp] lemma refresh_annotationList :
    (refresh d user f vc).annotationList = vc.annotationList := by
  rw [refresh_eq]
  split <;> rfl

lemma fieldLabel_refresh (ne : g ≠ f) :
    fieldLabel d user g (refresh d user f vc) = fieldLabel d user g vc := by
  unfold fieldLabel
  rw [refresh_other ne]

lemma stale_refresh (ne : g ≠ f) : Stale d user g (refresh d user f vc) ↔ Stale d user g vc := by
  unfold Stale
  rw [fieldLabel_refresh ne, refresh_other ne]

/-- A location update that finds no text out of date does nothing. -/
lemma didUpdateLocations_fresh (fresh : ∀ f, ¬ Stale d user f vc) :
    didUpdateLocations d user vc = vc := by
  have skip (f : Field) : refresh d user f vc = vc := by rw [refresh_eq, if_neg (fresh f)]
  rw [didUpdateLocations, skip, skip, skip]

/-- The pins after a location update: those before it, and the annotations of the fields
whose branch is taken. -/
lemma mem_didUpdateLocations {pin : Pin} : pin ∈ (didUpdateLocations d user vc).annotations ↔
    pin ∈ vc.annotations ∨ ∃ f, pin = .field f ∧ Stale d user f vc := by
  unfold didUpdateLocations
  rw [mem_refresh, mem_refresh, mem_refresh, stale_refresh (by decide), stale_refresh (by decide),
    stale_refresh (by decide)]
  constructor
  · rintro (((mem | taken) | taken) | taken)
    · exact .inl mem
    · exact .inr ⟨_, taken⟩
    · exact .inr ⟨_, taken⟩
    · exact .inr ⟨_, taken⟩
  · rintro (mem | ⟨f, taken⟩)
    · exact .inl (.inl (.inl mem))
    · cases f with
      | pointAno => exact .inl (.inl (.inr taken))
      | annotationPin => exact .inl (.inr taken)
      | anAsahiya => exact .inr taken

lemma didUpdateLocations_field (f : Field) : (didUpdateLocations d user vc).field f =
    if Stale d user f vc then f.setText (fieldLabel d user f vc) (vc.field f) else vc.field f := by
  have first : Field.annotationPin ≠ .pointAno := by decide
  have second : Field.anAsahiya ≠ .annotationPin := by decide
  have third : Field.anAsahiya ≠ .pointAno := by decide
  unfold didUpdateLocations
  cases f with
  | pointAno => rw [refresh_other third.symm, refresh_other first.symm, refresh_self]
  | annotationPin =>
    rw [refresh_other second.symm, refresh_self, fieldLabel_refresh first, refresh_other first]
    simp only [stale_refresh first]
  | anAsahiya =>
    rw [refresh_self, fieldLabel_refresh second, fieldLabel_refresh third, refresh_other second,
      refresh_other third]
    simp only [stale_refresh second, stale_refresh third]

@[simp] lemma didUpdateLocations_shop : (didUpdateLocations d user vc).shop = vc.shop := by
  simp [didUpdateLocations]

@[simp] lemma didUpdateLocations_annotationList :
    (didUpdateLocations d user vc).annotationList = vc.annotationList := by
  simp [didUpdateLocations]

@[simp] lemma setText_coordinate (f : Field) (str : String) (object : MKPointAnnotation) :
    (f.setText str object).coordinate = object.coordinate := by
  cases f <;> rfl

lemma didUpdateLocations_coordinate (f : Field) :
    ((didUpdateLocations d user vc).field f).coordinate = (vc.field f).coordinate := by
  rw [didUpdateLocations_field]
  split
  · exact setText_coordinate _ _ _
  · rfl

end Location

section LongPress
variable {center : Coordinate} {state : GestureState}

/-- The release of a long press puts `pointAno` on the map, at the place and with its distance. -/
lemma longPress_ended : mapViewDidLongPress d .ended center user vc =
    addToMap (.field .pointAno) (setField .pointAno
      ⟨center, some (label (d.distance user center)), (vc.field .pointAno).subtitle⟩ vc) := by
  unfold mapViewDidLongPress
  simp only [reduceCtorEq, if_false, if_true]
  split
  · simp [addToMap, setField]
  · rename_i same
    simp only [ne_eq, not_not] at same
    simp [addToMap, setField, ← same]

lemma longPress_began :
    mapViewDidLongPress d .began center user vc = removeFromMap (.field .pointAno) vc := rfl

/-- Every other phase of a press is ignored. -/
lemma longPress_ignored (began : state ≠ .began) (ended : state ≠ .ended) :
    mapViewDidLongPress d state center user vc = vc := by
  simp [mapViewDidLongPress, began, ended]

/-- What a long press can do to the screen. -/
lemma longPress_cases (d : DistanceFunction) (state : GestureState) (center user : Coordinate)
    (vc : ViewController) :
    (state = .began ∧
      mapViewDidLongPress d state center user vc = removeFromMap (.field .pointAno) vc) ∨
    (state = .ended ∧
      mapViewDidLongPress d state center user vc = addToMap (.field .pointAno) (setField .pointAno
        ⟨center, some (label (d.distance user center)), (vc.field .pointAno).subtitle⟩ vc)) ∨
    (state ≠ .began ∧ state ≠ .ended ∧ mapViewDidLongPress d state center user vc = vc) := by
  by_cases began : state = .began
  · exact .inl ⟨began, by rw [began, longPress_began]⟩
  · by_cases ended : state = .ended
    · exact .inr (.inl ⟨ended, by rw [ended, longPress_ended]⟩)
    · exact .inr (.inr ⟨began, ended, longPress_ignored began ended⟩)

@[simp] lemma longPress_shop : (mapViewDidLongPress d state center user vc).shop = vc.shop := by
  obtain ⟨-, e⟩ | ⟨-, e⟩ | ⟨-, -, e⟩ := longPress_cases d state center user vc <;> rw [e] <;> rfl

@[simp] lemma longPress_annotationList :
    (mapViewDidLongPress d state center user vc).annotationList = vc.annotationList := by
  obtain ⟨-, e⟩ | ⟨-, e⟩ | ⟨-, -, e⟩ := longPress_cases d state center user vc <;> rw [e] <;> rfl

lemma mem_longPress {pin : Pin} (other : pin ≠ .field .pointAno) :
    pin ∈ (mapViewDidLongPress d state center user vc).annotations ↔ pin ∈ vc.annotations := by
  obtain ⟨-, e⟩ | ⟨-, e⟩ | ⟨-, -, e⟩ := longPress_cases d state center user vc <;> rw [e]
  · simp [removeFromMap, other]
  · simp [addToMap, setField, other]

lemma longPress_field {f : Field} (other : f ≠ .pointAno) :
    (mapViewDidLongPress d state center user vc).field f = vc.field f := by
  obtain ⟨-, e⟩ | ⟨-, e⟩ | ⟨-, -, e⟩ := longPress_cases d state center user vc <;> rw [e]
  · rfl
  · simp [addToMap, setField, other]

end LongPress

section Search
variable {result : Option (List MKPlacemark)} {error : Option String}

/-- The placemarks a completion puts on the map. -/
def placed (result : Option (List MKPlacemark)) (error : Option String) : List MKPlacemark :=
  if error = none then result.getD [] else []

lemma placed_subset : placed result error ⊆ result.getD [] := by
  unfold placed
  split
  · exact List.Subset.refl _
  · exact List.nil_subset _

/-- Search results are appended to `annotationList` and come onto the map under the next numbers. -/
lemma addWalks (items : List MKPlacemark) (vc : ViewController) :
    let vc' := items.foldl (fun vc placemark => addWalk placemark vc) vc
    vc'.annotationList = vc.annotationList ++ items.map walkOf ∧
    vc'.field = vc.field ∧ vc'.shop = vc.shop ∧
    ∀ pin, pin ∈ vc'.annotations ↔ pin ∈ vc.annotations ∨
      ∃ i < items.length, pin = .walk (vc.annotationList.length + i) := by
  induction items generalizing vc with
  | nil => simp
  | cons placemark items ih =>
    obtain ⟨list, field, shop, pins⟩ := ih (addWalk placemark vc)
    refine ⟨?_, field, shop, fun pin => ?_⟩
    · rw [List.foldl_cons, list]
      simp [addWalk, addToMap]
    · rw [List.foldl_cons, pins]
      simp only [addWalk, addToMap, Finset.mem_insert, List.length_append, List.length_cons,
        List.length_nil]
      -- the first item takes the number after the list, the others those that follow
      constructor
      · rintro ((rfl | mem) | ⟨i, bound, rfl⟩)
        · exact .inr ⟨0, by omega, by rw [Nat.add_zero]⟩
        · exact .inl mem
        · exact .inr ⟨i + 1, by omega, by rw [Nat.add_right_comm, Nat.add_assoc]⟩
      · rintro (mem | ⟨i, bound, rfl⟩)
        · exact .inl (.inr mem)
        · cases i with
          | zero => exact .inl (.inl (by rw [Nat.add_zero]))
          | succ i => exact .inr ⟨i, by omega, by rw [Nat.zero_add, Nat.add_assoc, Nat.add_comm i]⟩

/-- A completion is the clearing of the map followed by the placed search results. -/
lemma searchCompleted_eq : searchCompleted result error vc =
    (placed result error).foldl (fun vc placemark => addWalk placemark vc)
      { vc with annotations := ∅ } := by
  unfold searchCompleted placed
  cases result with
  | none => simp
  | some items =>
    by_cases ok : error = none
    · simp [ok]
    · induction items with
      | nil => simp
      | cons placemark items ih => simp [ok]

lemma searchCompleted_annotationList : (searchCompleted result error vc).annotationList =
    vc.annotationList ++ (placed result error).map walkOf := by
  rw [searchCompleted_eq]
  exact (addWalks _ _).1

@[simp] lemma searchCompleted_field : (searchCompleted result error vc).field = vc.field := by
  rw [searchCompleted_eq]
  exact (addWalks _ _).2.1

@[simp] lemma searchCompleted_shop : (searchCompleted result error vc).shop = vc.shop := by
  rw [searchCompleted_eq]
  exact (addWalks _ _).2.2.1

/-- After a completion the map shows the search results it placed and nothing else. -/
lemma mem_searchCompleted {pin : Pin} : pin ∈ (searchCompleted result error vc).annotations ↔
    ∃ i < (placed result error).length, pin = .walk (vc.annotationList.length + i) := by
  rw [searchCompleted_eq, (addWalks _ _).2.2.2]
  simp

lemma searchCompleted_object {i : Nat} {placemark : MKPlacemark}
    (at_i : (placed result error)[i]? = some placemark) :
    (searchCompleted result error vc).object (.walk (vc.annotationList.length + i)) =
      (walkOf placemark).point := by
  have at_end :
      (vc.annotationList ++ (placed result error).map walkOf)[vc.annotationList.length + i]? =
        some (walkOf placemark) := by
    rw [List.getElem?_append_right (Nat.le_add_right _ _), Nat.add_sub_cancel_left,
      List.getElem?_map, at_i]
    rfl
  simp [object, searchCompleted_annotationList, at_end]

end Search

end ViewController

end SpecialtyMap.Map
