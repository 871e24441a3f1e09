import Mathlib.Data.List.Basic
import Mathlib.Tactic.Common

/-!
# Records and tables of the store

The object classes of `DB/*.swift` and the store that holds them. A `Store` is the content of the
default Realm, one list for each class in the order `realm.objects` lists its objects in. Fields
that no screen reads (creation dates, codes, the object lists of `Maindata` and `Url`) are left out.

`Results` subscripts trap past the end of their table, and the screens write through three
operations only: adding a review, deleting a review, deleting a speciality. They do so in a write
transaction of the `Realm`, which `write` cancels if its block throws, but not if the commit does.
-/

namespace SpecialtyMap.DB

/-- A finite `Double`, by its IEEE 754 bit pattern: the exponent field is not all ones. -/
structure Double where
  bits : BitVec 64
  finite : bits.extractLsb' 52 11 ≠ 0x7FF#11
deriving DecidableEq

def Double.zero : Double := ⟨0, by decide⟩

structure Maindata where
  latitude : Double
  longitude : Double
  number : Int16
  compoundKey : String
deriving DecidableEq

structure Shop where
  shopName : String
  shopAddr : String
deriving DecidableEq

structure Url where
  url : String
deriving DecidableEq

structure Speciality where
  specialityName : String
deriving DecidableEq

structure Review where
  specialtyName : String
  evaluation : String
  comment : String
deriving DecidableEq

/-- The tables of the default Realm. -/
structure Store where
  maindata : List Maindata := []
  shop : List Shop := []
  url : List Url := []
  speciality : List Speciality := []
  review : List Review := []
deriving DecidableEq

/-- The run-time errors that abort the app. -/
inductive Trap where
  /-- A `Results` subscript past the end of the table. -/
  | indexOutOfRange
  /-- A force-unwrap of `nil`. -/
  | unwrappedNil
  /-- `UITableView` finds the row counts before and after an update inconsistent. -/
  | invalidUpdate
  /-- `beginWrite` of a Realm that is in a write transaction. -/
  | alreadyInWriteTransaction
  /-- A `try!` of a call that throws. -/
  | triedInVain
deriving DecidableEq

/-- The subscript of a live `Results`. -/
def subscript {α : Type*} (results : List α) (index : Nat) : Except Trap α :=
  match results[index]? with
  | some record => .ok record
  | none => .error .indexOutOfRange

def unwrap {α : Type*} : Option α → Except Trap α
  | some x => .ok x
  | none => .error .unwrappedNil

/-- A sequence of two computations that succeeds is two computations that succeed. -/
lemma bind_ok.{u, v} {κ : Type u} {α β : Type v} {x : Except κ α} {f : α → Except κ β} {b : β}
    (e : x >>= f = .ok b) : ∃ a, x = .ok a ∧ f a = .ok b := by
  cases x with
  | error _ => cases e
  | ok a => exact ⟨a, rfl, e⟩

lemma subscript_eq_ok_iff {α : Type*} {results : List α} {index : Nat} {record : α} :
    subscript results index = .ok record ↔ results[index]? = some record := by
  unfold subscript
  cases results[index]? <;> simp

lemma subscript_ok_iff {α : Type*} {results : List α} {index : Nat} :
    (∃ record, subscript results index = .ok record) ↔ index < results.length := by
  simp only [subscript_eq_ok_iff, List.getElem?_eq_some_iff]
  exact ⟨fun ⟨_, bound, _⟩ => bound, fun bound => ⟨_, bound, rfl⟩⟩

/-- `realm.add(review)`. -/
def Store.addReview (store : Store) (review : Review) : Store :=
  { store with review := store.review ++ [review] }

/-- `realm.delete(reviewList[index])`. -/
def Store.deleteReview (store : Store) (index : Nat) : Store :=
  { store with review := store.review.eraseIdx index }

/-- `realm.delete(speList[index])`. -/
def Store.deleteSpeciality (store : Store) (index : Nat) : Store :=
  { store with speciality := store.speciality.eraseIdx index }

inductive Write where
  | addReview (review : Review)
  | deleteReview (index : Nat)
  | deleteSpeciality (index : Nat)

def Store.write (store : Store) : Write → Store
  | .addReview review => store.addReview review
  | .deleteReview index => store.deleteReview index
  | .deleteSpeciality index => store.deleteSpeciality index

/-- The default Realm: the tables as they are read, and whether a write transaction is open. -/
structure Realm where
  store : Store
  isInWriteTransaction : Bool := false

namespace Realm

def beginWrite (realm : Realm) : Except Trap Realm :=
  if realm.isInWriteTransaction then .error .alreadyInWriteTransaction
  else .ok { realm with isInWriteTransaction := true }

/-- `write` with a block that does not throw, and whether the commit succeeds. One that throws
leaves the Realm as the storage engine has it then. -/
def write (left : Option Realm) (block : Store → Except Trap Store) (realm : Realm) :
    Except Trap (Realm × Bool) := do
  let realm ← realm.beginWrite
  let store ← block realm.store
  match left with
  | some left => return (left, false)
  | none => return ({ store }, true)

end Realm

/-- `md1` of `ViewController.viewDidLoad`, at 35.749934, 139.76496. -/
def md1 : Maindata where
  latitude := ⟨0x4041dffdd65a1449, by decide⟩
  longitude := ⟨0x4061787a8d64d7f1, by decide⟩
  number := 1
  compoundKey := "35.749934/139.76496/1"

/-- `md2` of `ViewController.viewDidLoad`, at 35.749747, 139.765256. -/
def md2 : Maindata where
  latitude := ⟨0x4041dff7b5aea316, by decide⟩
  longitude := ⟨0x4061787cfa26a22b, by decide⟩
  number := 2
  compoundKey := "35.749747/139.765256/2"

/-- The records `ViewController.viewDidLoad` builds. Its calls that would add them are commented
out, so a store has them only if some earlier version of the app wrote them. -/
def seeds : Store where
  maindata := [md1, md2]
  shop := [⟨"マルホベーカリー", "東京都 荒川区 西尾久 2-3-6"⟩,
    ⟨"日本そば朝日屋総本店", "東京都 荒川区 西尾久 2-4-15"⟩]
  url := [⟨"https://www.google.co.jp"⟩, ⟨"https://catch-questions.com"⟩,
    ⟨"https://www.yahoo.co.jp"⟩]
  speciality := [⟨"パン"⟩, ⟨"蕎麦"⟩]

end SpecialtyMap.DB
