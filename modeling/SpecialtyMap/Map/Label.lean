import SpecialtyMap.Map.Screen
import SpecialtyMap.Machine.Run

/-!
# Distance texts

After a location update the long-press pin and the shop pins on the map should carry the distance
from the user in their texts. The update writes to the annotations of the fields, so it reaches the
long-press pin, unless the user stands on it, and never the shop pins, whose texts stay what the
store said until a search takes the pins away. `current_iff` is the exact condition.
-/

namespace SpecialtyMap.Map
open SpecialtyMap.DB SpecialtyMap.Machine

def MapEvent.Searched : MapEvent → Prop
  | .searchCompleted _ _ => True
  | _ => False

namespace ViewController
variable {d : DistanceFunction} {user : Coordinate} {vc : ViewController}

/-- The title of the long-press pin is its distance from the user. -/
def PressCurrent (d : DistanceFunction) (user : Coordinate) (vc : ViewController) : Prop :=
  (vc.field .pointAno).title = some (label (d.distance user (vc.field .pointAno).coordinate))

/-- The subtitle of a shop pin is its distance from the user. -/
def ShopCurrent (d : DistanceFunction) (user : Coordinate) (vc : ViewController)
    (shop : ShopPin) : Prop :=
  (vc.shop shop).subtitle = some (label (d.distance user (vc.shop shop).coordinate))

/-- The long-press pin and the shop pins on the map carry their distances from the user. -/
def Current (d : DistanceFunction) (user : Coordinate) (vc : ViewController) : Prop :=
  (.field .pointAno ∈ vc.annotations → PressCurrent d user vc) ∧
  ∀ shop, .shop shop ∈ vc.annotations → ShopCurrent d user vc shop

/-- If the user stands on the long-press pin, the pin says so already. -/
def PressUnderUser (d : DistanceFunction) (user : Coordinate) (vc : ViewController) : Prop :=
  .field .pointAno ∈ vc.annotations → d.distance user (vc.field .pointAno).coordinate = 0 →
    (vc.field .pointAno).title = some (label 0)

@[simp] lemma step_shop (e : MapEvent) : (step d vc e).shop = vc.shop := by
  cases e <;> simp [step]

/-- A search takes the shop pins away, and nothing brings them back. -/
lemma mem_step_shop (e : MapEvent) (shop : ShopPin) :
    .shop shop ∈ (step d vc e).annotations ↔ .shop shop ∈ vc.annotations ∧ ¬ e.Searched := by
  cases e with
  | didUpdateLocations user => simp [step, mem_didUpdateLocations, MapEvent.Searched]
  | longPress state center user =>
    rw [step, mem_longPress (by simp)]
    simp [MapEvent.Searched]
  | searchCompleted result error => simp [step, mem_searchCompleted, MapEvent.Searched]

lemma exec_shop (es : List MapEvent) : (exec (step d) vc es).shop = vc.shop :=
  @exec_invariant _ _ (step d) (fun s => s.shop = vc.shop)
    (fun _ e same => (step_shop e).trans same) vc rfl es

lemma mem_exec_shop (es : List MapEvent) (shop : ShopPin) :
    .shop shop ∈ (exec (step d) vc es).annotations ↔
      .shop shop ∈ vc.annotations ∧ ∀ e ∈ es, ¬ e.Searched := by
  induction es generalizing vc with
  | nil => simp
  | cons e es ih => simp [ih, mem_step_shop, and_assoc]

/-- The text of the long-press pin is current after an update, unless the user stands on the pin. -/
lemma press_update_iff :
    (.field .pointAno ∈ (didUpdateLocations d user vc).annotations →
      PressCurrent d user (didUpdateLocations d user vc)) ↔ PressUnderUser d user vc := by
  unfold PressCurrent
  rw [didUpdateLocations_coordinate, didUpdateLocations_field, mem_didUpdateLocations]
  by_cases stale : Stale d user .pointAno vc
  · rw [if_pos stale]
    constructor
    · intro _ _ here
      exact absurd here.symm stale.1
    · intro _ _
      rfl
  · have pins : (.field .pointAno ∈ vc.annotations ∨
        ∃ f, Pin.field .pointAno = .field f ∧ Stale d user f vc) ↔
        .field .pointAno ∈ vc.annotations := by
      simp [stale]
    rw [if_neg stale, pins]
    constructor
    · intro current mem here
      rw [← here]
      exact current mem
    · intro under mem
      by_cases here : d.distance user (vc.field .pointAno).coordinate = 0
      · rw [here]
        exact under mem here
      · -- away from the pin a text that was not written is the right one
        by_contra other
        exact stale ⟨Ne.symm here, other⟩

/-- The texts are current after a location update exactly when the store called the shops by their
distances or a search has taken the shop pins away, and the long-press pin is not under the user
or says so already. -/
theorem current_iff {store : Store} (load : viewDidLoad store = .ok vc) (es : List MapEvent)
    (user : Coordinate) :
    Current d user (didUpdateLocations d user (exec (step d) vc es)) ↔
      PressUnderUser d user (exec (step d) vc es) ∧
      ((∃ e ∈ es, e.Searched) ∨ ∀ shop, ShopCurrent d user vc shop) := by
  have placed (shop : ShopPin) : .shop shop ∈ vc.annotations := by
    obtain ⟨_, _, _, _, -, -, -, -, rfl⟩ := viewDidLoad_inv load
    cases shop <;> simp
  have pins (shop : ShopPin) : .shop shop ∈
      (didUpdateLocations d user (exec (step d) vc es)).annotations ↔ ∀ e ∈ es, ¬ e.Searched := by
    rw [mem_didUpdateLocations, mem_exec_shop]
    simp [placed]
  rw [Current, press_update_iff]
  refine and_congr_right fun _ => ?_
  simp only [pins, ShopCurrent, didUpdateLocations_shop, exec_shop]
  constructor
  · intro current
    by_cases searched : ∃ e ∈ es, e.Searched
    · exact .inl searched
    · simp only [not_exists, not_and] at searched
      exact .inr fun shop => current shop searched
  · rintro (⟨e, mem, searched⟩ | current) shop none
    · exact absurd searched (none e mem)
    · exact current shop

/-- A search for nothing, then a press released away from the user. -/
theorem current_iff_searched :
    let place : Coordinate := ⟨md1.latitude, md1.longitude⟩
    let es : List MapEvent := [.searchCompleted none none, .longPress .ended place .zero]
    Current .flat .zero (didUpdateLocations .flat .zero (exec (step .flat) loaded es)) ↔
      PressUnderUser .flat .zero (exec (step .flat) loaded es) ∧
      ((∃ e ∈ es, e.Searched) ∨ ∀ shop, ShopCurrent .flat .zero loaded shop) :=
  current_iff viewDidLoad_seeds _ _

/-- The first location update leaves the bakery with its address. -/
theorem current_fails :
    ∃ vc, viewDidLoad seeds = .ok vc ∧
      let user : Coordinate := ⟨md1.latitude, md1.longitude⟩
      ¬ Current .flat user (didUpdateLocations .flat user (exec (step .flat) vc [])) := by
  refine ⟨loaded, viewDidLoad_seeds, fun current => ?_⟩
  have mem : .shop .annotationPin ∈
      (didUpdateLocations .flat ⟨md1.latitude, md1.longitude⟩ loaded).annotations :=
    mem_didUpdateLocations.mpr (.inl (by decide))
  have text := current.2 .annotationPin mem
  rw [ShopCurrent, exec_nil, didUpdateLocations_shop] at text
  exact absurd text (by decide +kernel)

end ViewController

end SpecialtyMap.Map
