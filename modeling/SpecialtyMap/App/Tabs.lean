import SpecialtyMap.Link.Rows
import SpecialtyMap.Map.Search
import SpecialtyMap.Map.Select
import SpecialtyMap.Review.Drill
import SpecialtyMap.Review.Screens

/-!
# The app

`Main.storyboard` puts the three tabs side by side: the map screen with its searches, the review
screens and the link screen. They share the default Realm, and the map screen shares `AppDelegate`
with its popup. `Tabs` is all of it after a launch, driven by the events of every tab in any order.
An event says how the calls of `Realm()` and `realm.write` in its handlers go.

Nothing the app writes is read by the map screen or the link screen, so both are what the launch
store makes them, as long as a commit that fails leaves the store it found. Which runs abort the app
is then a matter of single events (`run_survives_iff`): a tap on a pin that lacks a text, or on the
dot of the user, which has no subtitle; a row of the link screen without a record or without a valid
address; and a Realm that does not open, or a post that is not written, where the code insists on it
with `try!` or goes on with a list that is `nil`. In the runs that survive each tab goes its own way
(`run_projects`).
-/

namespace SpecialtyMap.App
open SpecialtyMap.DB SpecialtyMap.Machine SpecialtyMap.Map SpecialtyMap.Review SpecialtyMap.Link
open SpecialtyMap.Text

/-- The tabs and what `AppDelegate` holds. The default Realm is that of the review screens, which
alone write to it. -/
structure Tabs where
  map : Session
  delegate : AppDelegate := {}
  review : ReviewMainViewController
  /-- The table screens whose `viewDidLoad` gets its list. That of the others stays `nil`. -/
  listed : Finset Child

/-- The app comes up on the map screen. -/
def launch (store : Store) (listed : Finset Child) : Except Trap Tabs := do
  let screen ← ViewController.viewDidLoad store
  return { map := { screen }, review := ReviewMainViewController.viewDidLoad store, listed }

/-- The events of the tabs. Where a handler calls `Realm()`, `opens` says that it does not throw. -/
inductive AppEvent where
  | map (e : SessionEvent)
  | didSelect (pin : Pin) (user : Coordinate)
  | didSelectUserLocation (title : Option String) (user : Coordinate)
  | review (e : ReviewEvent)
  /-- A post whose `Realm()` or `realm.write` throws. -/
  | addbtnThrows
  | selectSpeciality (row : Nat) (opens : Bool)
  /-- The link screen loads. -/
  | loadLinks (opens : Bool)
  | showLink (row : Nat) (opens : Bool)
  | selectLink (indexSection row : Nat) (opens : Bool)

/-- Tapping the dot of the user. `MKUserLocation` has a title and no subtitle. -/
def tapUserLocation (d : DistanceFunction) (user : Coordinate) (title : Option String)
    (vc : ViewController) (delegate : AppDelegate) :
    Except Trap (ViewController × AppDelegate × Popup) := do
  let (vc, delegate) ←
    ViewController.mapViewDidSelect d user (some { coordinate := user, title }) vc delegate
  let popup ← SemiModalViewController.viewDidLoad delegate
  return (vc, delegate, popup)

/-- `try! Realm()`. -/
def tryRealm (opens : Bool) : Except Trap Unit :=
  if opens then return else throw .triedInVain

/-- The use of a list that a `viewDidLoad` gets in a `do` with an empty `catch`. -/
def useList (gets : Prop) [Decidable gets] : Except Trap Unit :=
  if gets then return else throw .unwrappedNil

/-- A screen of the review tab has the list its table counts. The form has no table. -/
def Tabs.HasList (app : Tabs) (c : Child) : Prop := c = .reviewed ∨ c ∈ app.listed

instance {app : Tabs} {c : Child} : Decidable (app.HasList c) := inferInstanceAs (Decidable (_ ∨ _))

/-- The form is on the screen. -/
def Tabs.OffersPost (app : Tabs) : Prop := app.review.inWindow ∧ .reviewed ∈ app.review.children

instance {app : Tabs} : Decidable app.OffersPost := inferInstanceAs (Decidable (_ ∧ _))

section
variable (canonical : String → String) (d : DistanceFunction)

/-- One event of the app. An event that no screen offers changes nothing. -/
def step (app : Tabs) : AppEvent → Except Trap Tabs
  | .map e => return { app with map := app.map.step d e }
  | .didSelect pin user =>
    if pin ∈ app.map.screen.annotations then do
      let (screen, delegate, _) ← ViewController.tapPin d user pin app.map.screen app.delegate
      return { app with map := { app.map with screen }, delegate }
    else return app
  | .didSelectUserLocation title user => do
    let (screen, delegate, _) ← tapUserLocation d user title app.map.screen app.delegate
    return { app with map := { app.map with screen }, delegate }
  | .review e => do
    let review ← app.review.step e
    -- a table that comes onto the screen counts the records of its list
    useList (∀ c ∈ review.appeared, app.HasList c)
    return { app with review }
  | .addbtnThrows =>
    if app.OffersPost then do
      tryRealm false
      return app
    else return app
  | .selectSpeciality row opens =>
    if ReviewMainViewController.CanSwipe .reviewHome app.review.mainTableView.length row
        app.review then do
      let _ ← drillDown canonical app.review.store row
      useList opens
      return app
    else return app
  | .loadLinks opens => do
    tryRealm opens
    return app
  | .showLink row opens =>
    if row < LinkViewController.numberOfRowsInSection 0 then do
      tryRealm opens
      let _ ← LinkViewController.cellForRowAt app.review.store row
      return app
    else return app
  | .selectLink indexSection row opens =>
    if row < LinkViewController.numberOfRowsInSection indexSection then do
      tryRealm opens
      let _ ← LinkViewController.didSelectRowAt app.review.store indexSection row
      return app
    else return app

/-- The screen an event of the review tab brings up has its list. -/
def BringsUp (app : Tabs) : ReviewEvent → Prop
  | .enterTab => app.HasList (ReviewMainViewController.childOf app.review.selectedSegmentIndex)
  | .tapSegmentedControl index =>
    app.review.inWindow → app.HasList (ReviewMainViewController.childOf index)
  | _ => True

/-- The events that do not abort an app launched on this store. -/
def Survives (store : Store) (app : Tabs) : AppEvent → Prop
  | .map _ => True
  | .didSelect pin _ =>
    pin ∈ app.map.screen.annotations → ViewController.Tappable app.map.screen pin
  | .didSelectUserLocation _ _ => False
  | .review e => BringsUp app e
  | .addbtnThrows => ¬ app.OffersPost
  | .selectSpeciality row opens =>
    ReviewMainViewController.CanSwipe .reviewHome app.review.mainTableView.length row app.review →
      opens
  | .loadLinks opens => opens
  | .showLink row opens =>
    row < LinkViewController.numberOfRowsInSection 0 → opens ∧ row < store.url.length
  | .selectLink indexSection row opens =>
    row < LinkViewController.numberOfRowsInSection indexSection →
      opens ∧ ∃ record, store.url[row]? = some record ∧ URL.ofString? record.url ≠ none

end

/-- What a swipe whose write throws leaves. -/
def AppEvent.left : AppEvent → Option Realm
  | .review e => e.left
  | _ => none

/-- A swipe whose write throws leaves the Realm as it found it. -/
def Restores (app : Tabs) (e : AppEvent) : Prop :=
  ∀ left, e.left = some left → left = app.review.toRealm

/-- A swipe whose write throws leaves the tables the map screen reads as it found them. -/
def RestoresMap (app : Tabs) (e : AppEvent) : Prop :=
  ∀ left, e.left = some left → left.store.maindata = app.review.store.maindata ∧
    left.store.shop = app.review.store.shop

/-- The tables that the map screen and the link screen read are those of the launch. -/
structure Unwritten (store now : Store) : Prop where
  maindata : now.maindata = store.maindata
  shop : now.shop = store.shop
  url : now.url = store.url

lemma Unwritten.write {store now : Store} (same : Unwritten store now) (w : Write) :
    Unwritten store (now.write w) := by
  obtain ⟨maindata, shop, url⟩ := write_tables now w
  exact ⟨maindata.trans same.maindata, shop.trans same.shop, url.trans same.url⟩

/-- The map screen loads from two tables only. -/
lemma viewDidLoad_congr {store now : Store} (maindata : now.maindata = store.maindata)
    (shop : now.shop = store.shop) :
    ViewController.viewDidLoad now = ViewController.viewDidLoad store := by
  unfold ViewController.viewDidLoad
  rw [maindata, shop]

/-- The map pins are as `Tappable` reads them, the review screens are consistent and have their
lists, and the tables that are read by position are those of the launch. -/
structure Sound (store : Store) (app : Tabs) : Prop where
  equipped : ViewController.Equipped app.map.screen
  consistent : ReviewMainViewController.Consistent app.review
  unwritten : Unwritten store app.review.store
  listed : ∀ c ∈ app.review.appeared, app.HasList c

section
variable {canonical : String → String} {d : DistanceFunction} {store : Store}
  {listed : Finset Child}
  {app app' : Tabs}

lemma launch_inv (up : launch store listed = .ok app) :
    ∃ screen, ViewController.viewDidLoad store = .ok screen ∧
      app =
        { map := { screen }, review := ReviewMainViewController.viewDidLoad store, listed } := by
  obtain ⟨screen, load, e⟩ := bind_ok up
  cases e
  exact ⟨screen, load, rfl⟩

/-- No screen has appeared before the review tab is entered. -/
lemma viewDidLoad_appeared : (ReviewMainViewController.viewDidLoad store).appeared = ∅ := rfl

lemma Sound.init (up : launch store listed = .ok app) : Sound store app := by
  obtain ⟨screen, load, rfl⟩ := launch_inv up
  refine ⟨.init load, .init store, ?_, fun c mem => ?_⟩
  · have loaded : (ReviewMainViewController.viewDidLoad store).toRealm = { store } :=
      ReviewMainViewController.updateView_realm
    rw [loaded]
    exact ⟨rfl, rfl, rfl⟩
  · rw [viewDidLoad_appeared] at mem
    exact absurd mem (Finset.notMem_empty c)

/-- The map screen of a session keeps its texts as they have to be. -/
lemma equipped_session {s : Session} (inv : ViewController.Equipped s.screen) (e : SessionEvent) :
    ViewController.Equipped (s.step d e).screen := by
  obtain ⟨ms, run⟩ := Session.screen_run (d := d) s [e]
  rw [exec_cons, exec_nil] at run
  rw [run]
  exact exec_invariant (fun _ e inv => inv.step e) inv ms

/-- Tapping a pin changes what the screen remembers of the tap, and nothing else of it. -/
lemma tapPin_screen {user : Coordinate} {pin : Pin} {vc vc' : ViewController}
    {delegate delegate' : AppDelegate} {popup : Popup}
    (tapped : ViewController.tapPin d user pin vc delegate = .ok (vc', delegate', popup)) :
    ∃ tap, vc' = { vc with tap } := by
  obtain ⟨⟨screen, texts⟩, select, rest⟩ := bind_ok tapped
  obtain ⟨_, -, e⟩ := bind_ok rest
  cases e
  cases select
  exact ⟨_, rfl⟩

/-- The popup has no address to show for the user. -/
lemma tapUserLocation_traps {user : Coordinate} {title : Option String} {vc : ViewController}
    {delegate : AppDelegate} : tapUserLocation d user title vc delegate = .error .unwrappedNil :=
      rfl

/-- What a screen offers under a condition goes through exactly when its computation succeeds. -/
lemma offered_ok_iff {offered : Prop} [Decidable offered] {x : Except Trap Tabs} :
    (∃ app', (if offered then x else return app) = Except.ok app') ↔
      (offered → ∃ app', x = .ok app') := by
  split
  case isTrue holds => exact ⟨fun ok _ => ok, fun ok => ok holds⟩
  case isFalse skips => exact iff_of_true ⟨app, rfl⟩ fun holds => absurd holds skips

/-- Two computations, of which the first is a check, succeed when both do. -/
lemma both_ok_iff {α β : Type} {x : Except Trap α} {y : Except Trap β} :
    (∃ b, (x >>= fun _ => y) = .ok b) ↔ (∃ a, x = .ok a) ∧ ∃ b, y = .ok b := by
  constructor
  · rintro ⟨b, e⟩
    obtain ⟨a, first, second⟩ := bind_ok e
    exact ⟨⟨a, first⟩, ⟨b, second⟩⟩
  · rintro ⟨⟨a, first⟩, ⟨b, second⟩⟩
    rw [first]
    exact ⟨b, second⟩

lemma then_ok_iff {α : Type} {x : Except Trap α} {after : α → Tabs} :
    (∃ app', (x >>= fun a => return after a) = .ok app') ↔ ∃ a, x = .ok a := by
  constructor
  · rintro ⟨_, e⟩
    obtain ⟨a, ok, -⟩ := bind_ok e
    exact ⟨a, ok⟩
  · rintro ⟨a, ok⟩
    rw [ok]
    exact ⟨after a, rfl⟩

lemma tryRealm_ok_iff {opens : Bool} : (∃ u, tryRealm opens = .ok u) ↔ opens := by
  cases opens with
  | true => exact iff_of_true ⟨(), rfl⟩ rfl
  | false => exact iff_of_false (fun ⟨_, e⟩ => by cases e) Bool.false_ne_true

lemma useList_ok_iff {gets : Prop} [Decidable gets] : (∃ u, useList gets = .ok u) ↔ gets := by
  unfold useList
  split
  case isTrue holds => exact iff_of_true ⟨(), rfl⟩ holds
  case isFalse fails => exact iff_of_false (fun ⟨_, e⟩ => by cases e) fails

lemma didSelect_ok_iff (inv : Sound store app) {pin : Pin} {user : Coordinate} :
    (∃ app', step canonical d app (.didSelect pin user) = .ok app') ↔
      Survives store app (.didSelect pin user) := by
  have opens := (ViewController.tapPin_ok_iff d user pin app.map.screen app.delegate).trans
    (inv.equipped.filled_iff pin)
  rw [Survives, ← opens]
  exact offered_ok_iff.trans (forall_congr' fun _ => then_ok_iff)

lemma showLink_ok_iff (inv : Sound store app) {row : Nat} {opens : Bool} :
    (∃ app', step canonical d app (.showLink row opens) = .ok app') ↔
      Survives store app (.showLink row opens) := by
  have reads : (∃ text, LinkViewController.cellForRowAt app.review.store row = .ok text) ↔
      row < store.url.length := by
    rw [← inv.unwritten.url, ← subscript_ok_iff]
    constructor
    · rintro ⟨_, text⟩
      obtain ⟨record, read, -⟩ := bind_ok text
      exact ⟨record, read⟩
    · rintro ⟨record, read⟩
      exact ⟨record.url, by rw [LinkViewController.cellForRowAt, read]; rfl⟩
  refine offered_ok_iff.trans (forall_congr' fun _ => ?_)
  rw [both_ok_iff, tryRealm_ok_iff, then_ok_iff, reads]

/-- A row of the link screen opens when it has a record with a valid address. -/
lemma didSelectRowAt_ok_iff {indexSection row : Nat} :
    (∃ url, LinkViewController.didSelectRowAt store indexSection row = .ok url) ↔
      ∃ record, store.url[row]? = some record ∧ URL.ofString? record.url ≠ none := by
  obtain ⟨catchQuestions, valid⟩ := ofString_catch
  have same : LinkViewController.didSelectRowAt store indexSection row =
      subscript store.url row >>= fun record => unwrap (URL.ofString? record.url) := by
    unfold LinkViewController.didSelectRowAt
    rw [valid]
    split <;> rfl
  rw [same]
  constructor
  · rintro ⟨url, e⟩
    obtain ⟨record, read, opened⟩ := bind_ok e
    refine ⟨record, subscript_eq_ok_iff.mp read, fun invalid => ?_⟩
    rw [invalid] at opened
    cases opened
  · rintro ⟨record, read, opens⟩
    obtain ⟨url, opened⟩ := Option.ne_none_iff_exists'.mp opens
    refine ⟨url, ?_⟩
    rw [subscript_eq_ok_iff.mpr read]
    show unwrap (URL.ofString? record.url) = .ok url
    rw [opened]
    rfl

lemma selectLink_ok_iff (inv : Sound store app) {indexSection row : Nat} {opens : Bool} :
    (∃ app', step canonical d app (.selectLink indexSection row opens) = .ok app') ↔
      Survives store app (.selectLink indexSection row opens) := by
  refine offered_ok_iff.trans (forall_congr' fun _ => ?_)
  rw [both_ok_iff, tryRealm_ok_iff, then_ok_iff, didSelectRowAt_ok_iff, inv.unwritten.url]

/-- A row of the review home screen shows a record, so selecting it lists reviews
if there is a list. -/
lemma selectSpeciality_ok_iff (inv : Sound store app) {row : Nat} {opens : Bool} :
    (∃ app', step canonical d app (.selectSpeciality row opens) = .ok app') ↔
      Survives store app (.selectSpeciality row opens) := by
  refine offered_ok_iff.trans (forall_congr' fun offered => ?_)
  have rows : app.review.mainTableView = app.review.store.speciality :=
    inv.consistent.current offered
  have bound : row < app.review.store.speciality.length := by
    rw [← rows]
    exact offered.2.2
  obtain ⟨record, read⟩ := subscript_ok_iff.mpr bound
  have lists : ∃ reviews, drillDown canonical app.review.store row = .ok reviews := by
    rw [drillDown, ReviewHomeViewController.didSelectRowAt, read]
    exact ⟨_, rfl⟩
  rw [both_ok_iff, then_ok_iff, useList_ok_iff]
  exact and_iff_right lists

lemma Restores.review {e : ReviewEvent} (restores : Restores app (.review e)) :
    ReviewMainViewController.Consistent app.review →
    ReviewMainViewController.Restores app.review e := by
  intro inv
  cases e with
  | deleteReview row attempt =>
    intro _
    cases attempt with
    | writeThrows left =>
      cases restores left rfl
      exact ⟨rfl, inv.idle⟩
    | _ => trivial
  | deleteSpeciality row attempt =>
    intro _
    cases attempt with
    | writeThrows left =>
      cases restores left rfl
      exact ⟨rfl, inv.idle⟩
    | _ => trivial
  | _ => trivial

/-- The screens that have appeared after an event have their lists when the one it brings up has. -/
lemma Sound.bringsUp_iff (inv : Sound store app) {e : ReviewEvent}
    {review : ReviewMainViewController}
    (next : app.review.step e = .ok review)
    (consistent : ReviewMainViewController.Consistent review) :
    (∀ c ∈ review.appeared, app.HasList c) ↔ BringsUp app e := by
  have kept (same : review.appeared = app.review.appeared) :
      ∀ c ∈ review.appeared, app.HasList c := by
    rw [same]
    exact inv.listed
  have brought {index : Nat} (visible : review.inWindow)
      (selected : review.selectedSegmentIndex = index) :
      (∀ c ∈ review.appeared, app.HasList c) ↔
        app.HasList (ReviewMainViewController.childOf index) := by
    rw [consistent.appeared visible, selected]
    exact ⟨fun listed => listed _ (Finset.mem_singleton_self _),
      fun has c mem => (Finset.mem_singleton.mp mem).symm ▸ has⟩
  have shown := ReviewMainViewController.appeared_step next
  cases e with
  | enterTab => exact brought shown.1 shown.2
  | tapSegmentedControl index =>
    by_cases visible : app.review.inWindow
    · obtain ⟨visible', selected⟩ := shown.1 visible
      exact (brought visible' selected).trans ⟨fun has _ => has, fun brings => brings visible⟩
    · exact iff_of_true (kept (shown.2 visible)) fun here => absurd here visible
  | leaveTab => exact iff_of_true (kept shown) trivial
  | addbtn form => exact iff_of_true (kept shown) trivial
  | deleteReview row attempt => exact iff_of_true (kept shown) trivial
  | deleteSpeciality row attempt => exact iff_of_true (kept shown) trivial

/-- The review screens go through an event and stay consistent. -/
lemma Sound.review_step (inv : Sound store app) {e : ReviewEvent}
    (restores : Restores app (.review e)) :
    ∃ review, app.review.step e = .ok review ∧ ReviewMainViewController.Consistent review := by
  obtain ⟨review, next, consistent⟩ := inv.consistent.step e
  exact ⟨review, next, consistent (restores.review inv.consistent)⟩

lemma review_ok_iff (inv : Sound store app) {e : ReviewEvent}
    (restores : Restores app (.review e)) :
    (∃ app', step canonical d app (.review e) = .ok app') ↔ Survives store app (.review e) := by
  obtain ⟨review, next, consistent⟩ := inv.review_step restores
  have same : step canonical d app (.review e) =
      useList (∀ c ∈ review.appeared, app.HasList c) >>= fun _ => return { app with review } := by
    rw [step, next]
    rfl
  rw [same, then_ok_iff, useList_ok_iff]
  exact inv.bringsUp_iff next consistent

/-- One event goes through exactly when it survives. -/
lemma Sound.step_ok_iff (inv : Sound store app) (e : AppEvent) (restores : Restores app e) :
    (∃ app', step canonical d app e = .ok app') ↔ Survives store app e := by
  cases e with
  | map e => exact iff_of_true ⟨_, rfl⟩ trivial
  | didSelect pin user => exact didSelect_ok_iff inv
  | didSelectUserLocation title user =>
    refine iff_of_false (fun ⟨_, e⟩ => ?_) id
    rw [step, tapUserLocation_traps] at e
    cases e
  | review e => exact review_ok_iff inv restores
  | addbtnThrows =>
    refine offered_ok_iff.trans (forall_congr' fun _ => ?_)
    exact iff_of_false (fun ⟨_, e⟩ => by cases e) id
  | selectSpeciality row opens => exact selectSpeciality_ok_iff inv
  | loadLinks opens => exact then_ok_iff.trans tryRealm_ok_iff
  | showLink row opens => exact showLink_ok_iff inv
  | selectLink indexSection row opens => exact selectLink_ok_iff inv

/-- What the map screen does in an event of the app, the review screens likewise. -/
def AppEvent.mapEvents : AppEvent → List SessionEvent
  | .map e => [e]
  | _ => []

def AppEvent.reviewEvents : AppEvent → List ReviewEvent
  | .review e => [e]
  | _ => []

lemma then_inv {α β : Type} {x : Except Trap α} {y : Except Trap β} {b : β}
    (ok : (x >>= fun _ => y) = .ok b) : y = .ok b := by
  obtain ⟨_, -, rest⟩ := bind_ok ok
  exact rest

/-- What a screen does under a condition without changing the app. -/
lemma offered_inv {offered : Prop} [Decidable offered] {x : Except Trap Tabs}
    (next : (if offered then x else return app) = Except.ok app')
    (keeps : x = .ok app' → Except.ok app = (.ok app' : Except Trap Tabs)) : app' = app := by
  split at next
  · cases keeps next
    rfl
  · cases next
    rfl

/-- What an event that goes through does to the app. -/
lemma step_cases {e : AppEvent} (next : step canonical d app e = .ok app') :
    (∃ e', e = .map e' ∧ app' = { app with map := app.map.step d e' }) ∨
    (∃ e' review, e = .review e' ∧ app.review.step e' = .ok review ∧
      (∀ c ∈ review.appeared, app.HasList c) ∧ app' = { app with review }) ∨
    (e.mapEvents = [] ∧ e.reviewEvents = [] ∧ ∃ tap delegate, app' = { app with
      map := { app.map with screen := { app.map.screen with tap } }, delegate }) := by
  -- most events leave the app as it is
  have rest (same : app' = app) : ∃ tap delegate, app' = { app with
      map := { app.map with screen := { app.map.screen with tap } }, delegate } := ⟨_, _, same⟩
  cases e with
  | map e =>
    cases next
    exact .inl ⟨e, rfl, rfl⟩
  | didSelect pin user =>
    refine .inr (.inr ⟨rfl, rfl, ?_⟩)
    rw [step] at next
    split at next
    · obtain ⟨⟨screen, delegate, popup⟩, tapped, same⟩ := bind_ok next
      obtain ⟨tap, rfl⟩ := tapPin_screen tapped
      cases same
      exact ⟨tap, delegate, rfl⟩
    · cases next
      exact ⟨_, _, rfl⟩
  | didSelectUserLocation title user =>
    rw [step, tapUserLocation_traps] at next
    cases next
  | review e =>
    obtain ⟨review, stepped, next⟩ := bind_ok next
    obtain ⟨u, listed, same⟩ := bind_ok next
    cases same
    exact .inr (.inl ⟨e, review, rfl, stepped, useList_ok_iff.mp ⟨u, listed⟩, rfl⟩)
  | addbtnThrows => exact .inr (.inr ⟨rfl, rfl, rest (offered_inv next then_inv)⟩)
  | selectSpeciality row opens =>
    have same := offered_inv next fun ok => then_inv (then_inv ok)
    exact .inr (.inr ⟨rfl, rfl, rest same⟩)
  | loadLinks opens =>
    cases then_inv next
    exact .inr (.inr ⟨rfl, rfl, rest rfl⟩)
  | showLink row opens =>
    have same := offered_inv next fun ok => then_inv (then_inv ok)
    exact .inr (.inr ⟨rfl, rfl, rest same⟩)
  | selectLink indexSection row opens =>
    have same := offered_inv next fun ok => then_inv (then_inv ok)
    exact .inr (.inr ⟨rfl, rfl, rest same⟩)

/-- The tables stay those of the launch when the Realm is restored. -/
lemma Sound.store_step (inv : Sound store app) {e : ReviewEvent} {review : ReviewMainViewController}
    (next : app.review.step e = .ok review) (restores : Restores app (.review e)) :
    Unwritten store review.store := by
  obtain same | ⟨w, written⟩ | left := ReviewMainViewController.store_step next
  · rw [same]
    exact inv.unwritten
  · rw [written]
    exact inv.unwritten.write w
  · rw [restores _ left]
    exact inv.unwritten

lemma Sound.step (inv : Sound store app) {e : AppEvent} (restores : Restores app e)
    (next : step canonical d app e = .ok app') : Sound store app' := by
  obtain ⟨e', rfl, rfl⟩ | ⟨e', review, rfl, stepped, listed, rfl⟩ | ⟨-, -, tap, delegate, rfl⟩ :=
    step_cases next
  · exact ⟨equipped_session inv.equipped e', inv.consistent, inv.unwritten, inv.listed⟩
  · obtain ⟨review', stepped', consistent⟩ := inv.review_step restores
    cases stepped.symm.trans stepped'
    exact ⟨inv.equipped, consistent, inv.store_step stepped restores, listed⟩
  · exact ⟨⟨inv.equipped.field, inv.equipped.shop, inv.equipped.walk⟩, inv.consistent,
      inv.unwritten,
      inv.listed⟩

end

/-- A day with every tab: a search, a tap on its result, a post and a link. -/
def visit : List AppEvent :=
  [.map (.searchBarSearchButtonClicked (some "パン")),
    .map (.searchCompleted 0 (.success [⟨⟨md1.latitude, md1.longitude⟩, some "パン", none,
      none, none⟩])),
    .didSelect (.walk 0) .zero, .review .enterTab, .review (.tapSegmentedControl 2),
    .review (.addbtn { specialtyName := "パン" }), .review (.tapSegmentedControl 0),
    .review (.deleteSpeciality 0 .realmThrows), .selectSpeciality 1 true, .loadLinks true,
    .showLink 2 true, .selectLink 0 1 true]

lemma visit_left : ∀ e ∈ visit, e.left = none := by simp [visit, AppEvent.left, ReviewEvent.left]

section Projection
variable {canonical : String → String} {d : DistanceFunction} {store : Store}
  {listed : Finset Child}
  {app app' : Tabs}

/-- A map screen without what it remembers of the last tap. -/
def forget (vc : ViewController) : ViewController := { vc with tap := {} }

def untapped (s : Session) : Session := { s with screen := forget s.screen }

lemma refresh_forget {user : Coordinate} {f : Field} {vc : ViewController} :
    ViewController.refresh d user f (forget vc) = forget (ViewController.refresh d user f vc) := by
  unfold ViewController.refresh forget
  dsimp only
  split
  · split <;> rfl
  · rfl

lemma didUpdateLocations_forget {user : Coordinate} {vc : ViewController} :
    ViewController.didUpdateLocations d user (forget vc) =
      forget (ViewController.didUpdateLocations d user vc) := by
  unfold ViewController.didUpdateLocations
  rw [refresh_forget, refresh_forget, refresh_forget]

lemma longPress_forget {state : GestureState} {center user : Coordinate} {vc : ViewController} :
    ViewController.mapViewDidLongPress d state center user (forget vc) =
      forget (ViewController.mapViewDidLongPress d state center user vc) := by
  obtain ⟨began, e⟩ | ⟨ended, e⟩ | ⟨began, ended, e⟩ :=
    ViewController.longPress_cases d state center user vc
  · rw [e, began]
    rfl
  · rw [e, ended, ViewController.longPress_ended]
    rfl
  · rw [e, ViewController.longPress_ignored began ended]

lemma addWalks_forget {items : List MKPlacemark} {vc : ViewController} :
    items.foldl (fun vc placemark => ViewController.addWalk placemark vc) (forget vc) =
      forget (items.foldl (fun vc placemark => ViewController.addWalk placemark vc) vc) := by
  induction items generalizing vc with
  | nil => rfl
  | cons placemark items ih => exact @ih (ViewController.addWalk placemark vc)

lemma searchCompleted_forget {result : Option (List MKPlacemark)} {error : Option String}
    {vc : ViewController} :
    ViewController.searchCompleted result error (forget vc) =
      forget (ViewController.searchCompleted result error vc) := by
  rw [ViewController.searchCompleted_eq, ViewController.searchCompleted_eq]
  exact @addWalks_forget _ { vc with annotations := ∅ }

/-- No event of the map screen looks at the last tap. -/
lemma step_untapped (s : Session) (e : SessionEvent) :
    (untapped s).step d e = untapped (s.step d e) := by
  cases e with
  | searchBarSearchButtonClicked text =>
    unfold Session.step
    dsimp only
    split <;> rfl
  | searchCompleted position outcome =>
    cases under_way : s.searches.outstanding[position]? with
    | none =>
      have waits : (untapped s).searches.outstanding[position]? = none := under_way
      rw [Session.step, Session.step, under_way, waits]
    | some ticket =>
      have waits : (untapped s).searches.outstanding[position]? = some ticket := under_way
      rw [Session.step_completed under_way, Session.step_completed waits]
      exact congrArg (Session.mk · (s.searches.answer position outcome)) searchCompleted_forget
  | didUpdateLocations user =>
    exact congrArg (Session.mk · s.searches) didUpdateLocations_forget
  | longPress state center user =>
    exact congrArg (Session.mk · s.searches) longPress_forget

/-- What a run does to the map is what its map events do. -/
lemma map_projects {es : List AppEvent}
    (run : execM (step canonical d) app es = .ok app') :
    untapped app'.map = exec (Session.step d) (untapped app.map)
      (es.flatMap AppEvent.mapEvents) := by
  have step_map (app : Tabs) (e : AppEvent) (app' : Tabs)
      (next : step canonical d app e = .ok app') :
      execM (fun s e => (.ok (Session.step d s e) : Except Trap Session)) (untapped app.map)
        e.mapEvents = .ok (untapped app'.map) := by
    obtain ⟨e', rfl, rfl⟩ | ⟨e', review, rfl, -, -, rfl⟩ | ⟨maps, -, tap, delegate, rfl⟩ :=
      step_cases next
    · exact congrArg Except.ok (step_untapped app.map e')
    · rfl
    · rw [maps]
      rfl
  have map := execM_project (fun app : Tabs => untapped app.map) AppEvent.mapEvents step_map run
  rw [execM_total] at map
  exact (Except.ok.inj map).symm

lemma review_projects {es : List AppEvent}
    (run : execM (step canonical d) app es = .ok app') :
    execM (ReviewMainViewController.step) app.review
      (es.flatMap AppEvent.reviewEvents) = .ok app'.review := by
  refine execM_project (fun app : Tabs => app.review) AppEvent.reviewEvents
    (fun app e app' next => ?_) run
  obtain ⟨e', rfl, rfl⟩ | ⟨e', review, rfl, stepped, -, rfl⟩ | ⟨-, reviews, tap, delegate, rfl⟩ :=
    step_cases next
  · rfl
  · exact execM_cons_ok.mpr ⟨review, stepped, rfl⟩
  · rw [reviews]
    rfl

/-- The two tables the map screen loads from stay those of the launch if failed
commits leave them. -/
lemma loads_step {e : AppEvent} (next : step canonical d app e = .ok app')
    (restores : RestoresMap app e)
    (same : app.review.store.maindata = store.maindata ∧ app.review.store.shop = store.shop) :
    app'.review.store.maindata = store.maindata ∧ app'.review.store.shop = store.shop := by
  obtain ⟨e', rfl, rfl⟩ | ⟨e', review, rfl, stepped, -, rfl⟩ | ⟨-, -, tap, delegate, rfl⟩ :=
    step_cases next
  · exact same
  · show review.store.maindata = store.maindata ∧ review.store.shop = store.shop
    obtain kept | ⟨w, written⟩ | left := ReviewMainViewController.store_step stepped
    · rw [kept]
      exact same
    · obtain ⟨maindata, shop, -⟩ := write_tables app.review.store w
      rw [written, maindata, shop]
      exact same
    · obtain ⟨maindata, shop⟩ := restores _ left
      exact ⟨maindata.trans same.1, shop.trans same.2⟩
  · exact same

/-- In a run that survives each tab goes its own way: the map shows what its own events make of it,
and the review screens are where their own events bring them. A launch on the store the run leaves
comes up with the map of the launch before, if the failed commits leave the tables it loads from. -/
theorem run_projects (up : launch store listed = .ok app) {es : List AppEvent}
    (run : execM (step canonical d) app es = .ok app') :
    untapped app'.map = exec (Session.step d) app.map (es.flatMap AppEvent.mapEvents) ∧
    execM ReviewMainViewController.step app.review (es.flatMap AppEvent.reviewEvents) =
      .ok app'.review ∧
    (AllStepsM (step canonical d) RestoresMap app es → ∀ listed',
      ∃ again, launch app'.review.store listed' = .ok again ∧ again.map = app.map) := by
  obtain ⟨screen, load, first⟩ := launch_inv up
  have untouched : untapped app.map = app.map := by
    obtain ⟨_, _, _, _, -, -, -, -, loaded⟩ := ViewController.viewDidLoad_inv load
    rw [first, loaded]
    rfl
  have map := map_projects run
  rw [untouched] at map
  refine ⟨map, review_projects run, fun restores listed' => ?_⟩
  have store_first : app.review.store = store := by
    rw [first]
    exact congrArg Realm.store ReviewMainViewController.updateView_realm
  have same : app'.review.store.maindata = store.maindata ∧ app'.review.store.shop = store.shop :=
    execM_keeps (fun _ _ _ same restores next => loads_step next restores same)
      ⟨congrArg Store.maindata store_first, congrArg Store.shop store_first⟩ restores run
  rw [launch, viewDidLoad_congr same.1 same.2, load]
  exact ⟨_, rfl, by rw [first]⟩

/-- A search, a post, a swipe whose write throws and leaves the deletion, and a look at the links,
after which the app comes up again as it was. -/
def errands : List AppEvent :=
  [.map (.searchBarSearchButtonClicked (some "パン")), .review .enterTab,
    .review (.tapSegmentedControl 2), .map (.searchCompleted 0 (.failure "network")),
    .review (.addbtn { specialtyName := "パン" }), .review (.tapSegmentedControl 1),
    .review (.deleteReview 0 (.writeThrows ⟨seeds, true⟩)), .showLink 2 true]

lemma errands_left : ∀ e ∈ errands, ∀ left, e.left = some left → left.store = seeds := by
  simp [errands, AppEvent.left, ReviewEvent.left]

theorem run_projects_errands :
    ∃ app app', launch seeds {.reviewHome, .review} = .ok app ∧
      execM (step id .flat) app errands = .ok app' ∧
      untapped app'.map = exec (Session.step .flat) app.map (errands.flatMap AppEvent.mapEvents) ∧
      execM ReviewMainViewController.step app.review (errands.flatMap AppEvent.reviewEvents) =
        .ok app'.review ∧
      ∃ again, launch app'.review.store ∅ = .ok again ∧ again.map = app.map := by
  have projects := @run_projects id .flat seeds {.reviewHome, .review} _ _ rfl errands rfl
  refine ⟨_, _, rfl, rfl, projects.1, projects.2.1, projects.2.2 ?_ ∅⟩
  refine AllStepsM.of_invariant (fun _ _ _ same restores next => loads_step next restores same)
    ⟨rfl, rfl⟩ fun e mem app same left threw => ?_
  rw [errands_left e mem left threw]
  exact ⟨same.1.symm, same.2.symm⟩

end Projection

end SpecialtyMap.App
