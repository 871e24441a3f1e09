import SpecialtyMap.Review.Reviewed

/-!
# The reviews of a speciality

Selecting a row of the review home screen hands the name of the speciality to
`SubReviewHomeViewController`, which compares it with two names of its own and lists the reviews
with that name, or all reviews if it is neither. The two names are those the picker of the review
form offers, which is how `drillDown_eq` puts it.

Swift compares strings by their canonical forms, so the normal form is a parameter here, while the
filter of Realm compares the stored text.
-/

namespace SpecialtyMap.Review
open SpecialtyMap.DB

/-- The names the picker of `ReviewedViewController` offers. -/
def ReviewedViewController.list : List String := ["パン", "蕎麦"]

section
variable (canonical : String → String)

/-- `ReviewHomeViewController.tableView(_:didSelectRowAt:)`: `selectedText` and the identifier of
the segue it performs. -/
def ReviewHomeViewController.didSelectRowAt (store : Store) (row : Nat) :
    Except Trap (Option String × String) := do
  let record ← subscript store.speciality row
  return (some record.specialityName, "toSubViewController")

/-- `ReviewHomeViewController.prepare(for:sender:)`: `text` of the destination. -/
def ReviewHomeViewController.prepare (identifier : String) (selectedText text : Option String) :
    Option String :=
  if identifier = "toSubViewController" then selectedText else text

def textEquals (text : Option String) (name : String) : Prop :=
  text.map canonical = some (canonical name)

instance {text : Option String} {name : String} : Decidable (textEquals canonical text name) :=
  inferInstanceAs (Decidable (_ = _))

/-- `realm.objects(Review.self).filter("specialtyName = '…'")`. -/
def filterSpecialtyName (name : String) (store : Store) : List Review :=
  store.review.filter (·.specialtyName = name)

/-- `SubReviewHomeViewController.viewDidLoad`: `reviewList`. -/
def SubReviewHomeViewController.viewDidLoad (text : Option String) (store : Store) : List Review :=
  if textEquals canonical text "パン" then filterSpecialtyName "パン" store
  else if textEquals canonical text "蕎麦" then filterSpecialtyName "蕎麦" store
  else store.review

/-- Selecting a row: the list of reviews that is shown. -/
def drillDown (store : Store) (row : Nat) : Except Trap (List Review) := do
  let (selectedText, identifier) ← ReviewHomeViewController.didSelectRowAt store row
  let text := ReviewHomeViewController.prepare identifier selectedText none
  return SubReviewHomeViewController.viewDidLoad canonical text store

/-- The hard-coded names are those of the picker, in its order. -/
lemma viewDidLoad_find (name : String) (store : Store) :
    SubReviewHomeViewController.viewDidLoad canonical (some name) store =
      match ReviewedViewController.list.find? fun offered => canonical name = canonical offered with
      | some offered => filterSpecialtyName offered store
      | none => store.review := by
  unfold SubReviewHomeViewController.viewDidLoad ReviewedViewController.list textEquals
  by_cases bread : canonical name = canonical "パン"
  · simp [bread]
  · by_cases noodles : canonical name = canonical "蕎麦"
    · rw [noodles] at bread
      simp [noodles, bread]
    · simp [bread, noodles]

/-- Selecting a speciality lists, in the order of the store, the reviews with the name of the picker
that the name of the speciality equals, and all reviews if it equals none. -/
theorem drillDown_eq (store : Store) (row : Nat) (selected : Speciality)
    (shown : store.speciality[row]? = some selected) :
    drillDown canonical store row = .ok (
      match ReviewedViewController.list.find? fun offered =>
        canonical selected.specialityName = canonical offered with
      | some offered => store.review.filter (·.specialtyName = offered)
      | none => store.review) := by
  have read : subscript store.speciality row = .ok selected := subscript_eq_ok_iff.mpr shown
  have text : drillDown canonical store row = .ok (SubReviewHomeViewController.viewDidLoad canonical
      (some selected.specialityName) store) := by
    simp only [drillDown, ReviewHomeViewController.didSelectRowAt, read]
    rfl
  rw [text, viewDidLoad_find]
  rfl

end

/-- The bread of the seed records. -/
theorem drillDown_eq_bread :
    let store : Store := { seeds with review := [⟨"蕎麦", "3.0", ""⟩, ⟨"パン", "4.5", ""⟩] }
    drillDown id store 0 = .ok (
      match ReviewedViewController.list.find? fun offered => id "パン" = id offered with
      | some offered => store.review.filter (·.specialtyName = offered)
      | none => store.review) :=
  drillDown_eq id _ 0 ⟨"パン"⟩ rfl

/-- A speciality the picker does not offer lists the reviews of every other. -/
theorem drillDown_all :
    let store : Store := { speciality := [⟨"みかん"⟩], review := [⟨"パン", "4.5", ""⟩] }
    drillDown id store 0 = .ok [⟨"パン", "4.5", ""⟩] ∧
      drillDown id store 0 ≠ .ok (store.review.filter (·.specialtyName = "みかん")) := by
  decide +kernel

end SpecialtyMap.Review
