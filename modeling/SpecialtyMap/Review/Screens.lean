import SpecialtyMap.Machine.Run
import SpecialtyMap.Review.Reviewed
import SpecialtyMap.Review.Table
import Mathlib.Data.Finset.Basic

/-!
# The review screens

`ReviewMainViewController` shows one of three child screens. Each child is a lazy property whose
first use creates the child and adds it to the container, even when that use is the one that removes
it, so `updateView` adds a new child twice. A child that comes into a visible container appears, and
a table screen reloads its rows when it appears.

Two invariants carry the development. `Loaded` relates the rows of the tables to the store: a screen
that has appeared shows the current results, and every screen in a visible container has appeared.
It is kept by `add`, `remove` and the lazy properties one by one. `Consistent` adds that the one
child attached is that of the selected segment, which `updateView` establishes from any state
whatever, and that no write transaction is left open. The store changes in three places. A post is
made while the form is the child attached, and a swipe that succeeds deletes from the store and the
table alike. A swipe whose write throws keeps the table as it is, whatever the failed commit leaves
in the store: this is where the screens can lose the store, and nothing else is
(`screens_agree_iff`).
-/

namespace SpecialtyMap.Review
open SpecialtyMap.DB SpecialtyMap.Machine

inductive Child where
  | reviewHome
  | review
  | reviewed
deriving DecidableEq

/-- `ReviewMainViewController`, with what UIKit keeps for it and its children, over
the default Realm. -/
structure ReviewMainViewController extends Realm where
  selectedSegmentIndex : Nat := 0
  /-- The container is on the screen. -/
  inWindow : Bool := false
  /-- The lazy properties that have been used. -/
  created : Finset Child := ∅
  children : List Child := []
  subviews : List Child := []
  /-- The children that have appeared since they were attached. -/
  appeared : Finset Child := ∅
  /-- The rows recorded by the table of `ReviewViewController`. -/
  table : List Review := []
  /-- The rows recorded by the table of `ReviewHomeViewController`. -/
  mainTableView : List Speciality := []

namespace ReviewMainViewController
variable {s : ReviewMainViewController} {c : Child}

/-- `viewWillAppear` of a child: the table screens call `reloadData`. -/
def viewWillAppear (c : Child) (s : ReviewMainViewController) : ReviewMainViewController :=
  let s := { s with appeared := insert c s.appeared }
  match c with
  | .reviewHome =>
    { s with mainTableView := ReviewHomeViewController.mainTableView.results s.store }
  | .review => { s with table := ReviewViewController.table.results s.store }
  | .reviewed => s

/-- `add(asChildViewController:)`. `addChild` takes the child from the container it is
in, `addSubview` puts a subview it is given again to the front, and a view that comes
into a window appears. -/
def add (c : Child) (s : ReviewMainViewController) : ReviewMainViewController :=
  let appears := s.inWindow ∧ c ∉ s.subviews
  let s := { s with
    children := s.children.filter (· ≠ c) ++ [c]
    subviews := s.subviews.filter (· ≠ c) ++ [c] }
  if appears then viewWillAppear c s else s

def remove (c : Child) (s : ReviewMainViewController) : ReviewMainViewController :=
  { s with
    subviews := s.subviews.filter (· ≠ c)
    children := s.children.filter (· ≠ c)
    appeared := s.appeared.erase c }

/-- The use of a lazy property: at the first use its closure adds the child it creates. -/
def lazyChild (c : Child) (s : ReviewMainViewController) : ReviewMainViewController :=
  if c ∈ s.created then s
  else
    let s := add c s
    { s with created := insert c s.created }

/-- `remove(asChildViewController: c)` with the lazy property of `c`. -/
def removeLazy (c : Child) (s : ReviewMainViewController) : ReviewMainViewController :=
  remove c (lazyChild c s)

/-- `add(asChildViewController: c)` with the lazy property of `c`. -/
def addLazy (c : Child) (s : ReviewMainViewController) : ReviewMainViewController :=
  add c (lazyChild c s)

def updateView (s : ReviewMainViewController) : ReviewMainViewController :=
  if s.selectedSegmentIndex = 0 then
    addLazy .reviewHome (removeLazy .reviewed (removeLazy .review s))
  else if s.selectedSegmentIndex = 1 then
    addLazy .review (removeLazy .reviewed (removeLazy .reviewHome s))
  else
    addLazy .reviewed (removeLazy .review (removeLazy .reviewHome s))

/-- The child screen of a segment. -/
def childOf : Nat → Child
  | 0 => .reviewHome
  | 1 => .review
  | _ => .reviewed

/-- `viewDidLoad`, before the container is first on the screen. -/
def viewDidLoad (store : Store) : ReviewMainViewController := updateView { store }

/-- The container comes onto the screen, and the children in it appear. -/
def enterTab (s : ReviewMainViewController) : ReviewMainViewController :=
  if s.inWindow then s
  else s.subviews.foldl (fun s c => viewWillAppear c s) { s with inWindow := true }

/-- A swipe can be made on a row of a child on the screen. -/
def CanSwipe (c : Child) (rows row : Nat) (s : ReviewMainViewController) : Prop :=
  s.inWindow ∧ c ∈ s.children ∧ row < rows

instance {rows row : Nat} : Decidable (CanSwipe c rows row s) :=
  inferInstanceAs (Decidable (_ ∧ _ ∧ _))

end ReviewMainViewController

inductive ReviewEvent where
  | tapSegmentedControl (index : Nat)
  | leaveTab
  | enterTab
  | addbtn (form : ReviewedViewController)
  | deleteReview (row : Nat) (attempt : Attempt)
  | deleteSpeciality (row : Nat) (attempt : Attempt)

/-- What a swipe whose write throws leaves. -/
def ReviewEvent.left : ReviewEvent → Option Realm
  | .deleteReview _ (.writeThrows left) => some left
  | .deleteSpeciality _ (.writeThrows left) => some left
  | _ => none

namespace ReviewMainViewController
variable {s : ReviewMainViewController} {c : Child}

/-- One event of the review screens. An event that the screen does not offer changes nothing. -/
def step (s : ReviewMainViewController) : ReviewEvent → Except Trap ReviewMainViewController
  | .tapSegmentedControl index =>
    return if s.inWindow then updateView { s with selectedSegmentIndex := index } else s
  | .leaveTab => return { s with inWindow := false }
  | .enterTab => return enterTab s
  | .addbtn form =>
    if s.inWindow ∧ .reviewed ∈ s.children then do
      let (realm, _) ← s.toRealm.write none fun store => return form.addbtn store
      return { s with toRealm := realm }
    else return s
  | .deleteReview row attempt =>
    if CanSwipe .review s.table.length row s then do
      let (realm, table) ← ReviewViewController.commit row attempt s.toRealm s.table
      return { s with toRealm := realm, table }
    else return s
  | .deleteSpeciality row attempt =>
    if CanSwipe .reviewHome s.mainTableView.length row s then do
      let (realm, mainTableView) ←
        ReviewHomeViewController.commit row attempt s.toRealm s.mainTableView
      return { s with toRealm := realm, mainTableView }
    else return s

/-- The rows of a child are its current results. -/
def Current (s : ReviewMainViewController) : Child → Prop
  | .reviewHome => s.mainTableView = ReviewHomeViewController.mainTableView.results s.store
  | .review => s.table = ReviewViewController.table.results s.store
  | .reviewed => True

/-- A screen that has appeared is attached and shows its current results, and every screen in a
visible container has appeared. -/
structure Loaded (s : ReviewMainViewController) : Prop where
  current : ∀ c ∈ s.appeared, c ∈ s.subviews ∧ Current s c
  visible : s.inWindow → ∀ c ∈ s.subviews, c ∈ s.appeared

/-- The child attached is that of the selected segment, the tables are loaded, and no write
transaction is open. -/
structure Consistent (s : ReviewMainViewController) : Prop where
  children : s.children = [childOf s.selectedSegmentIndex]
  subviews : s.subviews = [childOf s.selectedSegmentIndex]
  loaded : Loaded s
  idle : s.isInWriteTransaction = false

/-- The tables stay loaded when what changes is neither attached nor out of date. -/
lemma Loaded.transport {s' : ReviewMainViewController} (inv : Loaded s)
    (subviews : s'.subviews = s.subviews) (appeared : s'.appeared = s.appeared)
    (visible : s'.inWindow → s.inWindow)
    (current : ∀ c ∈ s.subviews, Current s c → Current s' c) : Loaded s' := by
  constructor
  · intro c mem
    rw [appeared] at mem
    obtain ⟨attached, same⟩ := inv.current c mem
    rw [subviews]
    exact ⟨attached, current c attached same⟩
  · intro window c mem
    rw [subviews] at mem
    rw [appeared]
    exact inv.visible (visible window) c mem

section Appear

@[simp] lemma viewWillAppear_inWindow : (viewWillAppear c s).inWindow = s.inWindow := by
  cases c <;> rfl

@[simp] lemma viewWillAppear_index :
    (viewWillAppear c s).selectedSegmentIndex = s.selectedSegmentIndex := by
  cases c <;> rfl

@[simp] lemma viewWillAppear_children : (viewWillAppear c s).children = s.children := by
  cases c <;> rfl

@[simp] lemma viewWillAppear_subviews : (viewWillAppear c s).subviews = s.subviews := by
  cases c <;> rfl

@[simp] lemma viewWillAppear_appeared : (viewWillAppear c s).appeared = insert c s.appeared := by
  cases c <;> rfl

lemma current_viewWillAppear {c' : Child} :
    Current (viewWillAppear c s) c' ↔ c' = c ∨ Current s c' := by
  cases c <;> cases c' <;> simp [Current, viewWillAppear]

end Appear

section Attach

@[simp] lemma add_inWindow : (add c s).inWindow = s.inWindow := by
  unfold add
  dsimp only
  split <;> simp

@[simp] lemma add_index : (add c s).selectedSegmentIndex = s.selectedSegmentIndex := by
  unfold add
  dsimp only
  split <;> simp

@[simp] lemma add_children : (add c s).children = s.children.filter (· ≠ c) ++ [c] := by
  unfold add
  dsimp only
  split <;> simp

@[simp] lemma add_subviews : (add c s).subviews = s.subviews.filter (· ≠ c) ++ [c] := by
  unfold add
  dsimp only
  split <;> simp

lemma Loaded.add (inv : Loaded s) : Loaded (add c s) := by
  have attached (c' : Child) : c' ∈ s.subviews.filter (· ≠ c) ++ [c] ↔ c' = c ∨
      c' ∈ s.subviews := by
    by_cases same : c' = c <;> simp [same]
  constructor
  · intro c' mem
    rw [add_subviews, attached]
    unfold ReviewMainViewController.add at mem ⊢
    dsimp only at mem ⊢
    split at mem
    case isTrue appears =>
      rw [if_pos appears, current_viewWillAppear]
      rw [viewWillAppear_appeared, Finset.mem_insert] at mem
      rcases mem with same | mem
      · exact ⟨.inl same, .inl same⟩
      · obtain ⟨mem, current⟩ := inv.current c' mem
        exact ⟨.inr mem, .inr current⟩
    case isFalse stays =>
      rw [if_neg stays]
      obtain ⟨mem, current⟩ := inv.current c' mem
      exact ⟨.inr mem, current⟩
  · intro visible c' mem
    rw [add_inWindow] at visible
    rw [add_subviews, attached] at mem
    unfold ReviewMainViewController.add
    dsimp only
    split
    case isTrue appears =>
      rw [viewWillAppear_appeared, Finset.mem_insert]
      exact mem.imp_right fun mem => inv.visible visible c' mem
    case isFalse stays =>
      -- a view that is in the window already has appeared before
      have shown : c ∈ s.subviews := by
        by_contra new
        exact stays ⟨visible, new⟩
      rcases mem with rfl | mem
      · exact inv.visible visible _ shown
      · exact inv.visible visible c' mem

lemma Loaded.remove (inv : Loaded s) : Loaded (remove c s) := by
  constructor
  · intro c' mem
    obtain ⟨other, mem⟩ := Finset.mem_erase.mp mem
    obtain ⟨attached, current⟩ := inv.current c' mem
    refine ⟨List.mem_filter.mpr ⟨attached, by simpa using other⟩, ?_⟩
    cases c' <;> exact current
  · intro visible c' mem
    obtain ⟨mem, other⟩ := List.mem_filter.mp mem
    exact Finset.mem_erase.mpr ⟨by simpa using other, inv.visible visible c' mem⟩

lemma Loaded.lazyChild (inv : Loaded s) : Loaded (lazyChild c s) := by
  unfold ReviewMainViewController.lazyChild
  split
  · exact inv
  · exact (Loaded.add inv).transport rfl rfl id fun c' _ current => by cases c' <;> exact current

@[simp] lemma lazyChild_index : (lazyChild c s).selectedSegmentIndex = s.selectedSegmentIndex := by
  unfold lazyChild
  split <;> simp

@[simp] lemma lazyChild_inWindow : (lazyChild c s).inWindow = s.inWindow := by
  unfold lazyChild
  split <;> simp

lemma mem_lazyChild {c' : Child} :
    (c' ∈ (lazyChild c s).children → c' = c ∨ c' ∈ s.children) ∧
    (c' ∈ (lazyChild c s).subviews → c' = c ∨ c' ∈ s.subviews) := by
  unfold lazyChild
  split
  · exact ⟨.inr, .inr⟩
  · by_cases same : c' = c <;> simp [same]

lemma mem_removeLazy {c' : Child} :
    (c' ∈ (removeLazy c s).children → c' ≠ c ∧ c' ∈ s.children) ∧
    (c' ∈ (removeLazy c s).subviews → c' ≠ c ∧ c' ∈ s.subviews) := by
  constructor
  · intro mem
    obtain ⟨mem, other⟩ := List.mem_filter.mp mem
    have other : c' ≠ c := by simpa using other
    exact ⟨other, (mem_lazyChild.1 mem).resolve_left other⟩
  · intro mem
    obtain ⟨mem, other⟩ := List.mem_filter.mp mem
    have other : c' ≠ c := by simpa using other
    exact ⟨other, (mem_lazyChild.2 mem).resolve_left other⟩

end Attach

section Realm

@[simp] lemma viewWillAppear_realm : (viewWillAppear c s).toRealm = s.toRealm := by
  cases c <;> rfl

@[simp] lemma add_realm : (add c s).toRealm = s.toRealm := by
  unfold add
  dsimp only
  split <;> simp

@[simp] lemma removeLazy_realm : (removeLazy c s).toRealm = s.toRealm := by
  show (lazyChild c s).toRealm = s.toRealm
  unfold lazyChild
  split
  · rfl
  · exact add_realm

@[simp] lemma addLazy_realm : (addLazy c s).toRealm = s.toRealm := by
  show (add c (lazyChild c s)).toRealm = s.toRealm
  rw [add_realm]
  exact removeLazy_realm (c := c)

@[simp] lemma updateView_realm : (updateView s).toRealm = s.toRealm := by
  unfold updateView
  split
  · simp
  · split <;> simp

@[simp] lemma enterTab_realm : (enterTab s).toRealm = s.toRealm := by
  have appear (cs : List Child) (s : ReviewMainViewController) :
      (cs.foldl (fun s c => viewWillAppear c s) s).toRealm = s.toRealm := by
    induction cs generalizing s with
    | nil => rfl
    | cons c cs ih => exact (ih _).trans viewWillAppear_realm
  unfold enterTab
  split
  · rfl
  · exact appear _ _

/-- The container is on the screen then, and the segment is as it was. -/
lemma enterTab_visible :
    (enterTab s).inWindow ∧ (enterTab s).selectedSegmentIndex = s.selectedSegmentIndex := by
  have appear (cs : List Child) (s : ReviewMainViewController) :
      (cs.foldl (fun s c => viewWillAppear c s) s).inWindow = s.inWindow ∧
        (cs.foldl (fun s c => viewWillAppear c s) s).selectedSegmentIndex =
          s.selectedSegmentIndex := by
    induction cs generalizing s with
    | nil => exact ⟨rfl, rfl⟩
    | cons c cs ih =>
      obtain ⟨window, index⟩ := ih (viewWillAppear c s)
      exact ⟨window.trans viewWillAppear_inWindow, index.trans viewWillAppear_index⟩
  unfold enterTab
  split
  case isTrue visible => exact ⟨visible, rfl⟩
  case isFalse hidden => exact appear s.subviews { s with inWindow := true }

end Realm

section Switch

/-- `updateView` removes two children and adds the third, which is that of the selected segment. -/
lemma updateView_cases (s : ReviewMainViewController) : ∃ a b,
    (∀ c, c = a ∨ c = b ∨ c = childOf s.selectedSegmentIndex) ∧
    updateView s = addLazy (childOf s.selectedSegmentIndex) (removeLazy b (removeLazy a s)) := by
  unfold updateView
  match index : s.selectedSegmentIndex with
  | 0 => exact ⟨.review, .reviewed, fun c => by cases c <;> simp [childOf], rfl⟩
  | 1 => exact ⟨.reviewHome, .reviewed, fun c => by cases c <;> simp [childOf], rfl⟩
  | n + 2 =>
    refine ⟨.reviewHome, .review, fun c => by cases c <;> simp [childOf], ?_⟩
    rw [if_neg (by omega), if_neg (by omega)]
    rfl

lemma updateView_index : (updateView s).selectedSegmentIndex = s.selectedSegmentIndex := by
  obtain ⟨a, b, -, e⟩ := updateView_cases s
  rw [e]
  simp [addLazy, removeLazy, remove]

lemma updateView_inWindow : (updateView s).inWindow = s.inWindow := by
  obtain ⟨a, b, -, e⟩ := updateView_cases s
  rw [e]
  simp [addLazy, removeLazy, remove]

/-- Whatever was attached, `updateView` leaves the child of the selected segment. -/
lemma Loaded.updateView (inv : Loaded s) (idle : s.isInWriteTransaction = false) :
    Consistent (updateView s) := by
  have index := @updateView_index s
  have realm := @updateView_realm s
  obtain ⟨a, b, cover, e⟩ := updateView_cases s
  rw [e] at index realm ⊢
  have only {c : Child} (first : c ≠ a) (second : c ≠ b) : c = childOf s.selectedSegmentIndex :=
    ((cover c).resolve_left first).resolve_left second
  refine ⟨?_, ?_, Loaded.add (Loaded.lazyChild ?_), ?_⟩
  · rw [index, addLazy, add_children, List.filter_eq_nil_iff.mpr, List.nil_append]
    intro c mem
    have shown : c = childOf s.selectedSegmentIndex := by
      refine (mem_lazyChild.1 mem).elim id fun mem => ?_
      obtain ⟨second, mem⟩ := mem_removeLazy.1 mem
      exact only (mem_removeLazy.1 mem).1 second
    simpa using shown
  · rw [index, addLazy, add_subviews, List.filter_eq_nil_iff.mpr, List.nil_append]
    intro c mem
    have shown : c = childOf s.selectedSegmentIndex := by
      refine (mem_lazyChild.2 mem).elim id fun mem => ?_
      obtain ⟨second, mem⟩ := mem_removeLazy.2 mem
      exact only (mem_removeLazy.2 mem).1 second
    simpa using shown
  · exact Loaded.remove (Loaded.lazyChild (Loaded.remove (Loaded.lazyChild inv)))
  · rw [realm]
    exact idle

end Switch

lemma Consistent.init (store : Store) : Consistent (viewDidLoad store) :=
  Loaded.updateView ⟨fun _ mem => absurd mem (Finset.notMem_empty _),
    fun _ _ mem => by cases mem⟩ rfl

section Step
variable {e : ReviewEvent} {s' : ReviewMainViewController} {row : Nat} {attempt : Attempt}

lemma Consistent.enterTab (inv : Consistent s) : Consistent (enterTab s) := by
  have idle : (ReviewMainViewController.enterTab s).isInWriteTransaction = false := by
    rw [enterTab_realm]
    exact inv.idle
  unfold ReviewMainViewController.enterTab at idle ⊢
  split
  · exact inv
  case isFalse hidden =>
    rw [if_neg hidden] at idle
    rw [inv.subviews, List.foldl_cons, List.foldl_nil] at idle ⊢
    refine ⟨by simpa using inv.children, by simp, ⟨fun c mem => ?_, fun _ c mem => ?_⟩, idle⟩
    · rw [viewWillAppear_appeared, Finset.mem_insert] at mem
      rw [viewWillAppear_subviews, current_viewWillAppear]
      rcases mem with rfl | mem
      · exact ⟨List.mem_singleton_self _, .inl rfl⟩
      · obtain ⟨attached, current⟩ := inv.loaded.current c mem
        rw [inv.subviews] at attached
        exact ⟨attached, .inr (by cases c <;> exact current)⟩
    · rw [viewWillAppear_subviews, List.mem_singleton] at mem
      rw [mem, viewWillAppear_appeared]
      exact Finset.mem_insert_self _ _

lemma Consistent.leaveTab (inv : Consistent s) : Consistent { s with inWindow := false } := by
  refine ⟨inv.children, inv.subviews, inv.loaded.transport rfl rfl nofun fun c _ current => ?_,
    inv.idle⟩
  cases c <;> exact current

/-- The screens stay consistent when the Realm changes, if the child on the
screen is kept current. -/
lemma Consistent.transport (inv : Consistent s) (attached : c ∈ s.children)
    (children : s'.children = s.children) (subviews : s'.subviews = s.subviews)
    (index : s'.selectedSegmentIndex = s.selectedSegmentIndex) (appeared : s'.appeared = s.appeared)
    (window : s'.inWindow = s.inWindow) (current : Current s' c)
    (idle : s'.isInWriteTransaction = false) : Consistent s' := by
  rw [inv.children, List.mem_singleton] at attached
  refine ⟨?_, ?_, inv.loaded.transport subviews appeared
    (fun visible => ?_) fun c' shown _ => ?_, idle⟩
  · rw [children, index, inv.children]
  · rw [subviews, index, inv.subviews]
  · rwa [← window]
  · rw [inv.subviews, List.mem_singleton, ← attached] at shown
    rwa [shown]

lemma Consistent.shown {rows : Nat} (inv : Consistent s) (swipe : CanSwipe c rows row s) :
    c ∈ s.appeared := by
  obtain ⟨visible, attached, -⟩ := swipe
  apply inv.loaded.visible visible
  rwa [inv.subviews, ← inv.children]

lemma Consistent.current {rows : Nat} (inv : Consistent s) (swipe : CanSwipe c rows row s) :
    Current s c := (inv.loaded.current c (inv.shown swipe)).2

/-- A post is made while no table is attached. -/
lemma Consistent.addbtn (inv : Consistent s) (offered : s.inWindow ∧ .reviewed ∈ s.children)
    (form : ReviewedViewController) :
    step s (.addbtn form) = .ok { s with toRealm := { store := form.addbtn s.store } } := by
  rw [step, if_pos offered, Realm.write, Realm.beginWrite, inv.idle]
  rfl

lemma Consistent.deleteReview (inv : Consistent s)
    (swipe : CanSwipe .review s.table.length row s) :
    let swiped := ReviewViewController.table.swiped row attempt s.toRealm s.table
    step s (.deleteReview row attempt) = .ok { s with toRealm := swiped.1, table := swiped.2 } := by
  rw [step, if_pos swipe, ReviewViewController.commit,
    TableScreen.commit_current inv.idle (inv.current swipe) swipe.2.2]
  rfl

lemma Consistent.deleteSpeciality (inv : Consistent s)
    (swipe : CanSwipe .reviewHome s.mainTableView.length row s) :
    let swiped :=
      ReviewHomeViewController.mainTableView.swiped row attempt s.toRealm s.mainTableView
    step s (.deleteSpeciality row attempt) =
      .ok { s with toRealm := swiped.1, mainTableView := swiped.2 } := by
  rw [step, if_pos swipe, ReviewHomeViewController.commit,
    TableScreen.commit_current inv.idle (inv.current swipe) swipe.2.2]
  rfl

lemma deleteReview_idle (swipe : CanSwipe .review s.table.length row s)
    (run : step s (.deleteReview row .succeeds) = .ok s') : s.isInWriteTransaction = false := by
  rw [step, if_pos swipe] at run
  obtain ⟨_, committed, -⟩ := bind_ok run
  exact TableScreen.commit_succeeds_idle committed

lemma deleteSpeciality_idle (swipe : CanSwipe .reviewHome s.mainTableView.length row s)
    (run : step s (.deleteSpeciality row .succeeds) = .ok s') : s.isInWriteTransaction = false := by
  rw [step, if_pos swipe] at run
  obtain ⟨_, committed, -⟩ := bind_ok run
  exact TableScreen.commit_succeeds_idle committed

/-- A swipe whose write throws finds the records of its table as they were, and the Realm out of the
write transaction. -/
def Restores (s : ReviewMainViewController) : ReviewEvent → Prop
  | .deleteReview row attempt =>
    CanSwipe .review s.table.length row s → ReviewViewController.table.Restores s.toRealm attempt
  | .deleteSpeciality row attempt =>
    CanSwipe .reviewHome s.mainTableView.length row s →
      ReviewHomeViewController.mainTableView.Restores s.toRealm attempt
  | _ => True

/-- Every event succeeds, and keeps the screens consistent if it restores what it should. -/
lemma Consistent.step (inv : Consistent s) (e : ReviewEvent) :
    ∃ s', step s e = .ok s' ∧ (Restores s e → Consistent s') := by
  cases e with
  | tapSegmentedControl index =>
    refine ⟨_, rfl, fun _ => ?_⟩
    split
    · have loaded : Loaded { s with selectedSegmentIndex := index } :=
        inv.loaded.transport rfl rfl id fun c _ current => by cases c <;> exact current
      exact loaded.updateView inv.idle
    · exact inv
  | leaveTab => exact ⟨_, rfl, fun _ => inv.leaveTab⟩
  | enterTab => exact ⟨_, rfl, fun _ => inv.enterTab⟩
  | addbtn form =>
    by_cases offered : s.inWindow ∧ .reviewed ∈ s.children
    · exact ⟨_, inv.addbtn offered form,
        fun _ => inv.transport offered.2 rfl rfl rfl rfl rfl trivial rfl⟩
    · exact ⟨s, by rw [ReviewMainViewController.step, if_neg offered]; rfl, fun _ => inv⟩
  | deleteReview row attempt =>
    by_cases swipe : CanSwipe .review s.table.length row s
    · refine ⟨_, inv.deleteReview swipe, fun restores => ?_⟩
      obtain ⟨current, idle⟩ :=
        @TableScreen.swiped_current _ _ _ _ row _ inv.idle (inv.current swipe) (restores swipe)
      exact inv.transport swipe.2.1 rfl rfl rfl rfl rfl current idle
    · exact ⟨s, by rw [ReviewMainViewController.step, if_neg swipe]; rfl, fun _ => inv⟩
  | deleteSpeciality row attempt =>
    by_cases swipe : CanSwipe .reviewHome s.mainTableView.length row s
    · refine ⟨_, inv.deleteSpeciality swipe, fun restores => ?_⟩
      obtain ⟨current, idle⟩ :=
        @TableScreen.swiped_current _ _ _ _ row _ inv.idle (inv.current swipe) (restores swipe)
      exact inv.transport swipe.2.1 rfl rfl rfl rfl rfl current idle
    · exact ⟨s, by rw [ReviewMainViewController.step, if_neg swipe]; rfl, fun _ => inv⟩

/-- On the screen, the child of the selected segment is the one that has appeared. -/
lemma Consistent.appeared (inv : Consistent s) (visible : s.inWindow) :
    s.appeared = {childOf s.selectedSegmentIndex} := by
  ext c
  rw [Finset.mem_singleton, ← List.mem_singleton, ← inv.subviews]
  exact ⟨fun mem => (inv.loaded.current c mem).1, inv.loaded.visible visible c⟩

/-- Children appear when the tab is entered and when a segment is tapped on the screen, and no
others then than that of the segment. -/
lemma appeared_step (next : step s e = .ok s') :
    match e with
    | .enterTab => s'.inWindow ∧ s'.selectedSegmentIndex = s.selectedSegmentIndex
    | .tapSegmentedControl index =>
      (s.inWindow → s'.inWindow ∧ s'.selectedSegmentIndex = index) ∧
        (¬ s.inWindow → s'.appeared = s.appeared)
    | _ => s'.appeared = s.appeared := by
  cases e with
  | tapSegmentedControl index =>
    rw [step] at next
    by_cases visible : s.inWindow
    · rw [if_pos visible] at next
      cases next
      exact ⟨fun _ => ⟨updateView_inWindow.trans visible, updateView_index⟩,
        fun hidden => absurd visible hidden⟩
    · rw [if_neg visible] at next
      cases next
      exact ⟨fun here => absurd here visible, fun _ => rfl⟩
  | leaveTab =>
    cases next
    rfl
  | enterTab =>
    cases next
    exact enterTab_visible
  | addbtn form =>
    rw [step] at next
    split at next
    · obtain ⟨_, -, same⟩ := bind_ok next
      cases same
      rfl
    · cases next
      rfl
  | deleteReview row attempt =>
    rw [step] at next
    split at next
    · obtain ⟨_, -, same⟩ := bind_ok next
      cases same
      rfl
    · cases next
      rfl
  | deleteSpeciality row attempt =>
    rw [step] at next
    split at next
    · obtain ⟨_, -, same⟩ := bind_ok next
      cases same
      rfl
    · cases next
      rfl

/-- The store changes by the writes of the screens only, and by those that throw. -/
lemma store_step (next : step s e = .ok s') :
    s'.store = s.store ∨ (∃ w, s'.store = s.store.write w) ∨ e.left = some s'.toRealm := by
  cases e with
  | tapSegmentedControl index =>
    cases next
    split
    · exact .inl (congrArg Realm.store updateView_realm)
    · exact .inl rfl
  | leaveTab =>
    cases next
    exact .inl rfl
  | enterTab =>
    cases next
    exact .inl (congrArg Realm.store enterTab_realm)
  | addbtn form =>
    rw [step] at next
    split at next
    · obtain ⟨_, written, same⟩ := bind_ok next
      obtain ⟨begun, begins, rest⟩ := bind_ok written
      rw [Realm.beginWrite] at begins
      split at begins <;> cases begins
      cases rest
      cases same
      exact .inr (.inl ⟨.addReview _, rfl⟩)
    · cases next
      exact .inl rfl
  | deleteReview row attempt =>
    rw [step] at next
    split at next
    · obtain ⟨⟨realm, table⟩, committed, same⟩ := bind_ok next
      have swiped := TableScreen.commit_realm committed
      cases same
      cases attempt with
      | realmThrows => exact .inl (congrArg Realm.store swiped)
      | writeThrows left => exact .inr (.inr (congrArg some swiped.symm))
      | succeeds => exact .inr (.inl ⟨.deleteReview row, congrArg Realm.store swiped⟩)
    · cases next
      exact .inl rfl
  | deleteSpeciality row attempt =>
    rw [step] at next
    split at next
    · obtain ⟨⟨realm, table⟩, committed, same⟩ := bind_ok next
      have swiped := TableScreen.commit_realm committed
      cases same
      cases attempt with
      | realmThrows => exact .inl (congrArg Realm.store swiped)
      | writeThrows left => exact .inr (.inr (congrArg some swiped.symm))
      | succeeds => exact .inr (.inl ⟨.deleteSpeciality row, congrArg Realm.store swiped⟩)
    · cases next
      exact .inl rfl

/-- The child attached is that of the selected segment, and the tables that have appeared recorded
as many rows as there are results. -/
structure Agrees (s : ReviewMainViewController) : Prop where
  children : s.children = [childOf s.selectedSegmentIndex]
  subviews : s.subviews = [childOf s.selectedSegmentIndex]
  review : .review ∈ s.children → .review ∈ s.appeared →
    s.table.length = ReviewViewController.table.numberOfRowsInSection s.store
  reviewHome : .reviewHome ∈ s.children → .reviewHome ∈ s.appeared →
    s.mainTableView.length = ReviewHomeViewController.mainTableView.numberOfRowsInSection s.store

/-- A swipe on a row reads the record the row shows. It deletes that record alone from the store and
leaves a table of one row less, with the rows of its results; or, where `Realm()` or the write
throws, it leaves the table as it was. -/
def SwipeDeletes {α : Type} (table : TableScreen α) (c : Child)
    (rows : ReviewMainViewController → List α) (event : Nat → Attempt → ReviewEvent)
    (s : ReviewMainViewController) : Prop :=
  ∀ row attempt, CanSwipe c (rows s).length row s → ∃ record s',
    (rows s)[row]? = some record ∧ (table.results s.store)[row]? = some record ∧
    step s (event row attempt) = .ok s' ∧
    match attempt with
    | .realmThrows => s'.toRealm = s.toRealm ∧ rows s' = rows s
    | .writeThrows left => s'.toRealm = left ∧ rows s' = rows s
    | .succeeds => s'.toRealm = { store := table.delete s.store row } ∧
      rows s' = table.results s'.store ∧ (rows s').length + 1 = (rows s).length

/-- The screens agree with the store, and swipes delete what they should. -/
structure InOrder (s : ReviewMainViewController) : Prop where
  agrees : Agrees s
  review : SwipeDeletes ReviewViewController.table .review (·.table) .deleteReview s
  reviewHome : SwipeDeletes ReviewHomeViewController.mainTableView .reviewHome (·.mainTableView)
    .deleteSpeciality s

section Swipe
variable {α : Type} {table : TableScreen α} {rows : ReviewMainViewController → List α}
  {event : Nat → Attempt → ReviewEvent}

/-- Swipes delete what they should if a current table goes the way of its handler. -/
lemma swipeDeletes_of_step
    (current : ∀ row, CanSwipe c (rows s).length row s → rows s = table.results s.store)
    (next : ∀ row attempt, CanSwipe c (rows s).length row s →
      ∃ s', step s (event row attempt) = .ok s' ∧
        (s'.toRealm, rows s') = table.swiped row attempt s.toRealm (rows s)) :
    SwipeDeletes table c rows event s := by
  intro row attempt swipe
  have bound : row < (rows s).length := swipe.2.2
  have live := current row swipe
  obtain ⟨s', run, result⟩ := next row attempt swipe
  obtain ⟨realm, rows'⟩ := Prod.mk.inj result
  have read : (rows s)[row]? = some (rows s)[row] := List.getElem?_eq_getElem bound
  refine ⟨(rows s)[row], s', read, by rw [← live, read], run, ?_⟩
  cases attempt with
  | realmThrows => exact ⟨realm, rows'⟩
  | writeThrows left => exact ⟨realm, rows'⟩
  | succeeds =>
    refine ⟨realm, ?_, ?_⟩
    · rw [rows', realm, table.results_delete, ← live]
    · rw [rows', List.length_eraseIdx_add_one bound]

/-- A table on the screen whose counts and swipes are in order shows its results, and no write
transaction is open. -/
lemma SwipeDeletes.current (deletes : SwipeDeletes table c rows event s)
    (swipe : CanSwipe c (rows s).length row s)
    (size : (rows s).length = table.numberOfRowsInSection s.store)
    (begins : ∀ s', step s (event row .succeeds) = .ok s' → s.isInWriteTransaction = false) :
    rows s = table.results s.store ∧ s.isInWriteTransaction = false := by
  constructor
  · refine List.ext_getElem? fun x => ?_
    by_cases bound : x < (rows s).length
    · obtain ⟨record, -, here, there, -⟩ := deletes x .realmThrows ⟨swipe.1, swipe.2.1, bound⟩
      rw [here, there]
    · have beyond := Nat.le_of_not_lt bound
      rw [List.getElem?_eq_none beyond]
      rw [size] at beyond
      exact (List.getElem?_eq_none beyond).symm
  · obtain ⟨_, s', -, -, run, -⟩ := deletes row .succeeds swipe
    exact begins s' run

end Swipe

lemma Consistent.inOrder (inv : Consistent s) : InOrder s where
  agrees := {
    children := inv.children
    subviews := inv.subviews
    review _ mem := congrArg List.length (inv.loaded.current _ mem).2
    reviewHome _ mem := congrArg List.length (inv.loaded.current _ mem).2 }
  review := swipeDeletes_of_step (fun _ swipe => inv.current swipe)
    fun _ _ swipe => ⟨_, inv.deleteReview swipe, rfl⟩
  reviewHome := swipeDeletes_of_step (fun _ swipe => inv.current swipe)
    fun _ _ swipe => ⟨_, inv.deleteSpeciality swipe, rfl⟩

/-- One event leaves the screens in order exactly when it restores what it should. -/
lemma Consistent.step_iff (inv : Consistent s) (e : ReviewEvent) :
    (∃ s', ReviewMainViewController.step s e = .ok s' ∧ InOrder s') ↔ Restores s e := by
  constructor
  · rintro ⟨s', next, good⟩
    cases e with
    | deleteReview row attempt =>
      intro swipe
      rw [inv.deleteReview swipe] at next
      cases attempt with
      | writeThrows left =>
        obtain ⟨realm, rows, can, appeared⟩ : s'.toRealm = left ∧ s'.table = s.table ∧
            CanSwipe .review s'.table.length row s' ∧ s'.appeared = s.appeared := by
          cases next
          exact ⟨rfl, rfl, swipe, rfl⟩
        have shown : .review ∈ s'.appeared := by
          rw [appeared]
          exact inv.shown swipe
        obtain ⟨current, idle⟩ := good.review.current can (good.agrees.review can.2.1 shown)
          fun _ run => deleteReview_idle can run
        rw [rows, realm] at current
        rw [realm] at idle
        exact ⟨current.symm.trans (inv.current swipe), idle⟩
      | _ => trivial
    | deleteSpeciality row attempt =>
      intro swipe
      rw [inv.deleteSpeciality swipe] at next
      cases attempt with
      | writeThrows left =>
        obtain ⟨realm, rows, can, appeared⟩ : s'.toRealm = left ∧
          s'.mainTableView = s.mainTableView ∧
            CanSwipe .reviewHome s'.mainTableView.length row s' ∧ s'.appeared = s.appeared := by
          cases next
          exact ⟨rfl, rfl, swipe, rfl⟩
        have shown : .reviewHome ∈ s'.appeared := by
          rw [appeared]
          exact inv.shown swipe
        obtain ⟨current, idle⟩ := good.reviewHome.current can (good.agrees.reviewHome can.2.1 shown)
          fun _ run => deleteSpeciality_idle can run
        rw [rows, realm] at current
        rw [realm] at idle
        exact ⟨current.symm.trans (inv.current swipe), idle⟩
      | _ => trivial
    | _ => trivial
  · intro restores
    obtain ⟨s', next, consistent⟩ := inv.step e
    exact ⟨s', next, (consistent restores).inOrder⟩

/-- A run of the review screens does not abort the app, and has them in order in every state,
exactly when every swipe whose write throws finds the records of its table as they were and the
Realm out of the write transaction. -/
theorem screens_agree_iff (store : Store) (es : List ReviewEvent) :
    AllStatesM step InOrder (viewDidLoad store) es ↔
    AllStepsM step Restores (viewDidLoad store) es := by
  have init := Consistent.init store
  refine allStatesM_iff_allStepsM (fun _ e inv => inv.step_iff e)
    (fun _ e s' inv restores next => ?_)
    init init.inOrder es
  obtain ⟨s'', next', consistent⟩ := inv.step e
  cases next.symm.trans next'
  exact consistent restores

/-- A swipe on the only review, whose commit throws and leaves the deletion in the open write
transaction: the table has a row that the results have not, and the next swipe aborts the app. -/
theorem screens_agree_fails :
    let store : Store := { seeds with review := [⟨"パン", "3.0", ""⟩] }
    ∃ s, execM step (viewDidLoad store) [.enterTab, .tapSegmentedControl 1,
        .deleteReview 0 (.writeThrows ⟨seeds, true⟩)] = .ok s ∧
      ¬ Agrees s ∧ step s (.deleteReview 0 .succeeds) = .error .alreadyInWriteTransaction := by
  refine ⟨_, rfl, fun agrees => ?_, rfl⟩
  have counts := agrees.review (by decide) (by decide)
  exact absurd counts (by decide)

end Step

end ReviewMainViewController

end SpecialtyMap.Review
