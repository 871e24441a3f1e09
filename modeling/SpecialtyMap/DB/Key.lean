import SpecialtyMap.DB.Record
import SpecialtyMap.Text.Delimited
import Mathlib

/-!
# The compound primary key

`Maindata.primaryKey` is `compoundKey`, the text `latitude/longitude/number` that
`ViewController.viewDidLoad` assembles. The printed form of a `Double` comes from the Swift standard
library and is a parameter here: an injective function into the letters of decimal and exponent
notation. None of these letters is the slash, so the two slashes of the key stand where the fields
end (`keyFields_inj`), and equal keys have equal fields (`compoundKey_injective`).
-/

namespace SpecialtyMap.DB
open SpecialtyMap.Text

/-- The letters a finite `Double` is printed with. -/
def numeralLetter (c : Char) : Bool :=
  c.isDigit || c == '-' || c == '+' || c == '.' || c == 'e'

/-- `"\(number)"`: the decimal numeral of an `Int16`. -/
def numberDescription (number : Int16) : String := number.toInt.repr

/-- The formula of `md1.compoundKey` and `md2.compoundKey`. -/
def compoundKeyOf (description : Double → String) (latitude longitude : Double) (number : Int16) :
    String :=
  description latitude ++ "/" ++ description longitude ++ "/" ++ numberDescription number

/-- The key of the record is the one the formula gives. -/
def Maindata.Keyed (description : Double → String) (md : Maindata) : Prop :=
  md.compoundKey = compoundKeyOf description md.latitude md.longitude md.number

instance (description : Double → String) (md : Maindata) : Decidable (md.Keyed description) :=
  inferInstanceAs (Decidable (_ = _))

lemma slash_free {text : String} (letters : ∀ c ∈ text.toList, numeralLetter c) :
    '/' ∉ text.toList := by
  intro mem
  have letter := letters _ mem
  revert letter
  decide

lemma numberDescription_inj {m n : Int16} (e : numberDescription m = numberDescription n) : m = n :=
  Int16.toInt_inj.mp (Int.repr_injective e)

lemma compoundKeyOf_toList (description : Double → String) (latitude longitude : Double)
    (number : Int16) :
    (compoundKeyOf description latitude longitude number).toList =
      joinFields '/' [(description latitude).toList, (description longitude).toList]
        (numberDescription number).toList := by
  simp [compoundKeyOf, joinFields]

lemma keyFields_inj {description : Double → String}
    (letters : ∀ x, ∀ c ∈ (description x).toList, numeralLetter c) {lat lat' lon lon' : Double}
    {num num' : Int16}
    (e : compoundKeyOf description lat lon num = compoundKeyOf description lat' lon' num') :
    description lat = description lat' ∧ description lon = description lon' ∧
      numberDescription num = numberDescription num' := by
  have text := congrArg String.toList e
  rw [compoundKeyOf_toList, compoundKeyOf_toList] at text
  have free : ∀ x y, ∀ field ∈ [(description x).toList, (description y).toList], '/' ∉ field := by
    intro x y field mem
    rcases List.mem_cons.mp mem with rfl | mem
    · exact slash_free (letters x)
    · rw [List.mem_singleton.mp mem]
      exact slash_free (letters y)
  -- both keys have two closed fields, so they are cut at the same places
  obtain ⟨fields, number⟩ := joinFields_inj (by rfl) (free lat lon) (free lat' lon') text
  injection fields with latitude fields
  injection fields with longitude _
  exact ⟨String.toList_inj.mp latitude, String.toList_inj.mp longitude, String.toList_inj.mp number⟩

/-- Two records keyed by the formula share their key only if they agree on all three fields. -/
theorem compoundKey_injective {description : Double → String}
    (injective : Function.Injective description)
    (letters : ∀ x, ∀ c ∈ (description x).toList, numeralLetter c) {md md' : Maindata}
    (keyed : md.Keyed description) (keyed' : md'.Keyed description) :
    md.compoundKey = md'.compoundKey ↔
      md.latitude = md'.latitude ∧ md.longitude = md'.longitude ∧ md.number = md'.number := by
  rw [keyed, keyed']
  constructor
  · intro e
    obtain ⟨latitude, longitude, number⟩ := keyFields_inj letters e
    exact ⟨injective latitude, injective longitude, numberDescription_inj number⟩
  · rintro ⟨latitude, longitude, number⟩
    rw [latitude, longitude, number]

/-- `"\(x)"` on the coordinates of `md1`; any other number is printed by its bit pattern. -/
def sampleDescription (x : Double) : String :=
  if x = md1.latitude then "35.749934"
  else if x = md1.longitude then "139.76496"
  else "e" ++ x.bits.toNat.repr

lemma sampleDescription_cases (x : Double) :
    (x = md1.latitude ∧ sampleDescription x = "35.749934") ∨
    (x = md1.longitude ∧ sampleDescription x = "139.76496") ∨
    sampleDescription x = "e" ++ x.bits.toNat.repr := by
  by_cases lat : x = md1.latitude
  · exact .inl ⟨lat, by simp [sampleDescription, lat]⟩
  · by_cases lon : x = md1.longitude
    · subst lon
      exact .inr (.inl ⟨rfl, by simp [sampleDescription, lat]⟩)
    · exact .inr (.inr (by simp [sampleDescription, lat, lon]))

lemma ne_bitPattern {text : String} {n : Nat} (head : text.toList.head? ≠ some 'e') :
    text ≠ "e" ++ n.repr := by
  rintro rfl
  simp at head

lemma sampleDescription_injective : Function.Injective sampleDescription := by
  intro x y e
  rcases sampleDescription_cases x with ⟨ex, dx⟩ | ⟨ex, dx⟩ | dx <;>
    rcases sampleDescription_cases y with ⟨ey, dy⟩ | ⟨ey, dy⟩ | dy <;>
    rw [dx, dy] at e
  · rw [ex, ey]
  · exact absurd e (by decide)
  · exact absurd e (ne_bitPattern (by simp))
  · exact absurd e (by decide)
  · rw [ex, ey]
  · exact absurd e (ne_bitPattern (by simp))
  · exact absurd e.symm (ne_bitPattern (by simp))
  · exact absurd e.symm (ne_bitPattern (by simp))
  · have bits : x.bits.toNat = y.bits.toNat := Nat.repr_injective (by simpa using e)
    cases x
    cases y
    simpa [BitVec.toNat_inj] using bits

lemma sampleDescription_letters (x : Double) :
    ∀ c ∈ (sampleDescription x).toList, numeralLetter c := by
  rcases sampleDescription_cases x with ⟨-, e⟩ | ⟨-, e⟩ | e <;> rw [e]
  · simp [numeralLetter]
  · simp [numeralLetter]
  · intro c mem
    rw [String.toList_append, List.mem_append] at mem
    rcases mem with mem | mem
    · have letter : c = 'e' := by simpa using mem
      rw [letter]
      decide
    · rw [Nat.toList_repr] at mem
      have digit : c.isDigit := Nat.isDigit_of_mem_toDigits (by decide) (by decide) mem
      simp [numeralLetter, digit]

/-- `md1` and a record at the same place with another number have different keys. -/
theorem compoundKey_injective_md1 :
    let moved : Maindata := { md1 with number := 2, compoundKey := "35.749934/139.76496/2" }
    md1.compoundKey = moved.compoundKey ↔
      md1.latitude = moved.latitude ∧ md1.longitude = moved.longitude ∧ md1.number = moved.number :=
  compoundKey_injective sampleDescription_injective sampleDescription_letters
    (by decide) (by decide)

end SpecialtyMap.DB
