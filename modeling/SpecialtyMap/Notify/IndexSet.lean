import SpecialtyMap.Position.Ranges

/-!
# Index sets

`IndexSet` of Realm's ObjectStore, the sets of row numbers that change notifications are made of. It
holds the ranges of its members, and an iterator is a cursor between two of them. An operation
changes the ranges near its iterator and moves those after it.

Every operation keeps the ranges valid, so validity is a field of the structure, and is
characterised by one lemma on membership. Row numbers are natural numbers here; `npos` is `none`.
-/

namespace SpecialtyMap.Notify
open SpecialtyMap.Position

structure IndexSet where
  ranges : List Range
  valid : Valid ranges

namespace IndexSet

/-- Members of a set are the positions its ranges hold. -/
instance : Membership ℕ IndexSet := ⟨fun s x => Contains s.ranges x⟩

instance {s : IndexSet} {x : ℕ} : Decidable (x ∈ s) := inferInstanceAs (Decidable (Contains _ _))

lemma mem_def {s : IndexSet} {x : ℕ} : x ∈ s ↔ Contains s.ranges x := Iff.rfl

def empty : IndexSet := ⟨[], valid_nil⟩

/-- `find(index)`: at the range that contains the index, or the first one after it. -/
def find (index : ℕ) (s : IndexSet) : Cursor := (Cursor.start s.ranges).seek index

def contains (index : ℕ) (s : IndexSet) : Bool :=
  match (s.find index).right with
  | [] => false
  | r :: _ => r.first ≤ index

section Find
variable {s : IndexSet} {index : ℕ}

@[simp] lemma ranges_find : (s.find index).ranges = s.ranges := Cursor.ranges_seek _ _

lemma find_valid : Valid (s.find index).ranges := by
  rw [ranges_find]
  exact s.valid

lemma find_at : (s.find index).At index := Cursor.seek_at s.valid nofun

lemma mem_find (index : ℕ) {x : ℕ} : x ∈ s ↔ Contains (s.find index).ranges x := by
  rw [ranges_find]
  rfl

lemma contains_iff : s.contains index ↔ index ∈ s := by
  have valid : Valid (s.find index).ranges := find_valid
  have here : (s.find index).At index := find_at
  rw [mem_find index, contains]
  generalize s.find index = it at valid here
  obtain ⟨left, right⟩ := it
  have passed : ¬ Contains left index := not_contains_of_le here.left
  cases right with
  | nil => simpa [Cursor.ranges] using passed
  | cons r right => grind [not_contains_of_lt]

end Find

section Add

/-- `do_add`: the index before the given position, combined with the ranges next to it. -/
def doAdd (index : ℕ) (it : Cursor) : Cursor :=
  match it with
  | ⟨prev :: left, r :: right⟩ =>
    if r.first ≤ index ∧ index < r.second then it
    else if prev.second = index then
      -- right after a range, which it may join with the next
      if prev.second + 1 = r.first then ⟨left, ⟨prev.first, prev.second + 1 + r.size⟩ :: right⟩
      else ⟨left, ⟨prev.first, prev.second + 1⟩ :: r :: right⟩
    else if r.first = index + 1 then ⟨prev :: left, ⟨r.first - 1, r.second⟩ :: right⟩
    else ⟨prev :: left, ⟨index, index + 1⟩ :: r :: right⟩
  | ⟨prev :: left, []⟩ =>
    if prev.second = index then ⟨left, [⟨prev.first, prev.second + 1⟩]⟩
    else ⟨prev :: left, [⟨index, index + 1⟩]⟩
  | ⟨[], r :: right⟩ =>
    if r.first ≤ index ∧ index < r.second then it
    else if r.first = index + 1 then ⟨[], ⟨r.first - 1, r.second⟩ :: right⟩
    else ⟨[], ⟨index, index + 1⟩ :: r :: right⟩
  | ⟨[], []⟩ => ⟨[], [⟨index, index + 1⟩]⟩

/-- What `do_add` leaves: valid ranges with the index among them, and the iterator at its range. -/
structure Added (index : ℕ) (it it' : Cursor) : Prop where
  valid : Valid it'.ranges
  contains : ∀ x, Contains it'.ranges x ↔ x = index ∨ Contains it.ranges x
  here : it'.At index
  found : ∃ r right, it'.right = r :: right ∧ r.first ≤ index

variable {index : ℕ} {it : Cursor}

lemma doAdd_added (valid : Valid it.ranges) (here : it.At index) :
    Added index it (doAdd index it) := by
  obtain ⟨left, right⟩ := it
  cases left with
  | nil =>
    cases right with
    | nil =>
      refine ⟨?_, fun x => ?_, ?_, _, _, rfl, le_rfl⟩
      · simp [doAdd, Cursor.ranges, valid_cons]
      · simp [doAdd, Cursor.ranges, Nat.lt_add_one_iff, Nat.le_antisymm_iff, and_comm]
      · simp [doAdd, Cursor.at_mk]
    | cons r right => constructor <;> grind [doAdd]
  | cons prev left =>
    cases right with
    | nil => constructor <;> grind [doAdd]
    | cons r right => constructor <;> grind [doAdd]

def add (index : ℕ) (s : IndexSet) : IndexSet :=
  ⟨(doAdd index (s.find index)).ranges, (doAdd_added find_valid find_at).valid⟩

@[simp, grind =] lemma mem_add {s : IndexSet} {x : ℕ} : x ∈ s.add index ↔ x = index ∨ x ∈ s := by
  exact ((doAdd_added find_valid find_at).contains x).trans (or_congr_right (mem_find index).symm)

/-- `do_add` again and again, each time for the next index. -/
def doAddRun (index : ℕ) : ℕ → Cursor → Cursor
  | 0, it => it
  | count + 1, it => doAddRun (index + 1) count (doAdd index it).next

/-- A run of indexes in a gap that is wider. -/
lemma doAddRun_spec (count : ℕ) (valid : Valid it.ranges) (here : it.At index)
    (gap : ∀ r ∈ it.right, index + count < r.first) :
    Valid (doAddRun index count it).ranges ∧
    ∀ x, Contains (doAddRun index count it).ranges x ↔
      (index ≤ x ∧ x < index + count) ∨ Contains it.ranges x := by
  induction count generalizing index it with
  | zero =>
    refine ⟨valid, fun x => ?_⟩
    rw [doAddRun]
    exact (or_iff_right fun both => by omega).symm
  | succ count ih =>
    have added := doAdd_added valid here
    -- the iterator moves past the range that the index has joined
    have next : (doAdd index it).next.At (index + 1) ∧
        ∀ r ∈ (doAdd index it).next.right, index + 1 + count < r.first := by
      obtain ⟨left, right⟩ := it
      cases left with
      | nil => cases right <;> grind [doAdd, → Valid.nonempty]
      | cons prev left => cases right <;> grind [doAdd, → Valid.nonempty]
    have rest := ih (by rw [Cursor.ranges_next]; exact added.valid) next.1 next.2
    refine ⟨rest.1, fun x => ?_⟩
    rw [doAddRun, rest.2, Cursor.ranges_next, added.contains, ← or_assoc]
    exact or_congr_left (by omega)

end Add

section Insert

/-- `insert_at` at an iterator: the ranges from there on move, and the new indexes join the range
around them or are added before it. -/
def doInsert (index count : ℕ) (it : Cursor) : List Range :=
  match it with
  | ⟨left, []⟩ => (doAddRun index count ⟨left, []⟩).ranges
  | ⟨left, r :: right⟩ =>
    if r.first ≤ index then
      left.reverse ++ ⟨r.first, r.second + count⟩ :: right.map (Range.shift count)
    else
      (doAddRun index count ⟨left, (r :: right).map (Range.shift count)⟩).ranges

/-- `shift_for_insert_at` at an iterator: a range around the index is split on it. -/
def doShiftForInsert (index count : ℕ) (it : Cursor) : List Range :=
  match it with
  | ⟨left, []⟩ => left.reverse
  | ⟨left, r :: right⟩ =>
    let r := r.shift count
    let right := right.map (Range.shift count)
    if r.first < index + count then
      left.reverse ++ ⟨r.first - count, index⟩ :: ⟨index + count, r.second⟩ :: right
    else left.reverse ++ r :: right

variable {index count : ℕ} {it : Cursor}

lemma doInsert_spec (positive : 0 < count) (valid : Valid it.ranges) (here : it.At index) :
    Valid (doInsert index count it) ∧
    ∀ x, Contains (doInsert index count it) x ↔
      (index ≤ x ∧ x < index + count) ∨ (x < index ∧ Contains it.ranges x) ∨
        (index + count ≤ x ∧ Contains it.ranges (x - count)) := by
  obtain ⟨left, right⟩ := it
  have below (x : ℕ) (holds : Contains left x) : x < index := lt_of_contains here.left holds
  cases right with
  | nil =>
    obtain ⟨fresh, contains⟩ := doAddRun_spec count valid here nofun
    refine ⟨fresh, fun x => ?_⟩
    rw [doInsert, contains]
    grind
  | cons r right =>
    have above (x : ℕ) (holds : Contains right x) : r.second < x :=
      lt_contains (valid_cons.mp (valid_append.mp valid).2.1).2.1 holds
    rw [doInsert]
    split
    case isTrue around =>
      refine ⟨?_, fun x => ?_⟩
      · grind [valid_shift]
      · grind
    case isFalse after =>
      have moved : Valid (Cursor.ranges ⟨left, (r :: right).map (Range.shift count)⟩) := by
        grind [valid_shift]
      have there : Cursor.At index ⟨left, (r :: right).map (Range.shift count)⟩ := by
        grind
      obtain ⟨fresh, contains⟩ := doAddRun_spec count moved there (by grind)
      refine ⟨fresh, fun x => ?_⟩
      rw [contains]
      grind

lemma doShiftForInsert_spec (positive : 0 < count) (valid : Valid it.ranges) (here : it.At index) :
    Valid (doShiftForInsert index count it) ∧
    ∀ x, Contains (doShiftForInsert index count it) x ↔
      (x < index ∧ Contains it.ranges x) ∨
      (index + count ≤ x ∧ Contains it.ranges (x - count)) := by
  obtain ⟨left, right⟩ := it
  have below (x : ℕ) (holds : Contains left x) : x < index := lt_of_contains here.left holds
  cases right with
  | nil =>
    rw [doShiftForInsert]
    constructor <;> grind
  | cons r right =>
    have above (x : ℕ) (holds : Contains right x) : r.second < x :=
      lt_contains (valid_cons.mp (valid_append.mp valid).2.1).2.1 holds
    rw [doShiftForInsert]
    split
    case isTrue around =>
      refine ⟨?_, fun x => ?_⟩
      · grind [valid_shift]
      · grind
    case isFalse after =>
      refine ⟨?_, fun x => ?_⟩
      · grind [valid_shift]
      · grind

/-- The indexes are made members, and those at or after the first of them move. -/
def insertAt (index count : ℕ) (positive : 0 < count) (s : IndexSet) : IndexSet :=
  ⟨doInsert index count (s.find index), (doInsert_spec positive find_valid find_at).1⟩

def shiftForInsertAt (index count : ℕ) (positive : 0 < count) (s : IndexSet) : IndexSet :=
  ⟨doShiftForInsert index count (s.find index),
    (doShiftForInsert_spec positive find_valid find_at).1⟩

variable {s : IndexSet} {x : ℕ} {positive : 0 < count}

@[grind =] lemma mem_insertAt : x ∈ s.insertAt index count positive ↔
    (index ≤ x ∧ x < index + count) ∨ (x < index ∧ x ∈ s) ∨
    (index + count ≤ x ∧ x - count ∈ s) := by
  have members := (doInsert_spec positive (@find_valid s index) find_at).2 x
  rwa [ranges_find] at members

@[grind =] lemma mem_shiftForInsertAt : x ∈ s.shiftForInsertAt index count positive ↔
    (x < index ∧ x ∈ s) ∨ (index + count ≤ x ∧ x - count ∈ s) := by
  have members := (doShiftForInsert_spec positive (@find_valid s index) find_at).2 x
  rwa [ranges_find] at members

end Insert

section Erase

/-- `do_erase`: the index leaves the range around it, or the ranges around it come together, and the
ranges after it move back. -/
def doErase (index : ℕ) (it : Cursor) : List Range :=
  match it with
  | ⟨left, []⟩ => left.reverse
  | ⟨left, r :: right⟩ =>
    if r.first ≤ index then
      if r.first + 1 = r.second then left.reverse ++ right.map Range.shiftBack
      else left.reverse ++ ⟨r.first, r.second - 1⟩ :: right.map Range.shiftBack
    else
      match left with
      | [] => (r :: right).map Range.shiftBack
      | prev :: left =>
        if prev.second + 1 = r.first then
          left.reverse ++ ⟨prev.first, prev.second + r.size⟩ :: right.map Range.shiftBack
        else (prev :: left).reverse ++ (r :: right).map Range.shiftBack

variable {index : ℕ} {it : Cursor}

lemma doErase_spec (valid : Valid it.ranges) (here : it.At index) :
    Valid (doErase index it) ∧
    ∀ x, Contains (doErase index it) x ↔
      (x < index ∧ Contains it.ranges x) ∨ (index ≤ x ∧ Contains it.ranges (x + 1)) := by
  obtain ⟨left, right⟩ := it
  have below (x : ℕ) (holds : Contains left x) : x < index := lt_of_contains here.left holds
  cases right with
  | nil =>
    rw [doErase]
    constructor <;> grind
  | cons r right =>
    have above (x : ℕ) (holds : Contains right x) : r.second < x :=
      lt_contains (valid_cons.mp (valid_append.mp valid).2.1).2.1 holds
    unfold doErase
    dsimp only
    split
    case isTrue around =>
      have positive : ∀ b ∈ right, 0 < b.first := by grind
      have moved := fun x => contains_shiftBack (x := x) positive
      split <;> constructor <;> grind [valid_shiftBack]
    case isFalse after =>
      -- all ranges on the right are beyond the index
      have later : Valid (r :: right) := (valid_append.mp valid).2.1
      have beyond : ∀ b ∈ r :: right, index < b.first := by grind
      have positive (b : Range) (mem : b ∈ r :: right) : 0 < b.first :=
        Nat.zero_lt_of_lt (beyond b mem)
      have back := valid_shiftBack later positive
      have moved := fun x => contains_shiftBack (x := x) positive
      have far (x : ℕ) (holds : Contains (r :: right) x) : index < x := lt_contains beyond holds
      cases left with
      | nil => exact ⟨back, by grind⟩
      | cons prev left =>
        dsimp only
        split
        case isTrue near =>
          have moved' := fun x => contains_shiftBack (x := x) (List.forall_mem_cons.mp positive).2
          constructor <;> grind [valid_shiftBack]
        case isFalse wide =>
          constructor
          · refine valid_append.mpr ⟨(valid_append.mp valid).1, back, fun a mem b mem' => ?_⟩
            obtain ⟨b, old, rfl⟩ := List.mem_map.mp mem'
            grind
          · grind

/-- The index leaves the set, and those after it move back. -/
def eraseAt (index : ℕ) (s : IndexSet) : IndexSet :=
  ⟨doErase index (s.find index), (doErase_spec find_valid find_at).1⟩

/-- `erase_or_unshift`: also where an index that is not in the set is without
the ranges before it. -/
def eraseOrUnshift (index : ℕ) (s : IndexSet) : Option ℕ × IndexSet :=
  let it := s.find index
  let shifted := it.left.foldr (fun r shifted => shifted - r.size) index
  match it.right with
  | [] => (some shifted, s)
  | r :: _ => (if r.first ≤ index then none else some shifted, s.eraseAt index)

variable {s : IndexSet} {x : ℕ}

@[grind =] lemma mem_eraseAt : x ∈ s.eraseAt index ↔ (x < index ∧ x ∈ s) ∨
    (index ≤ x ∧ x + 1 ∈ s) := by
  have members := (doErase_spec (@find_valid s index) find_at).2 x
  rwa [ranges_find] at members

lemma foldr_size (rs : List Range) (x : ℕ) :
    rs.foldr (fun r shifted => shifted - r.size) x = x - total rs := by
  induction rs with
  | nil => rfl
  | cons r rs ih =>
    rw [List.foldr_cons, ih, total]
    omega

/-- Outside the set, the ranges the iterator has passed give the rank. -/
lemma rank_find (out : index ∉ s) : rank (· ∈ s) index = index - total (s.find index).left := by
  have ranked := find_at.rank (@find_valid s index) ((mem_find index).not.mp out)
  rw [ranges_find] at ranked
  exact Nat.eq_sub_of_add_eq ranked

lemma eraseOrUnshift_fst : (s.eraseOrUnshift index).1 =
    if index ∈ s then none else some (rank (· ∈ s) index) := by
  have test := @contains_iff s index
  have outside := @rank_find index s
  unfold eraseOrUnshift
  unfold contains at test
  dsimp only
  rw [foldr_size]
  split at test
  case h_1 none =>
    have out : index ∉ s := fun mem => by simpa using test.mpr mem
    rw [if_neg out, outside out]
  case h_2 r right found =>
    by_cases mem : index ∈ s
    · rw [if_pos mem]
      exact if_pos (by simpa using test.mpr mem)
    · rw [if_neg mem, outside mem]
      exact if_neg fun around => mem (test.mp (by simpa using around))

lemma mem_eraseOrUnshift : x ∈ (s.eraseOrUnshift index).2 ↔ x ∈ s.eraseAt index := by
  unfold eraseOrUnshift
  dsimp only
  split
  case h_1 none =>
    rw [mem_eraseAt]
    have below (x : ℕ) (mem : x ∈ s) : x < index := by
      rw [mem_find index, Cursor.ranges, none, List.append_nil, contains_reverse] at mem
      exact lt_of_contains find_at.left mem
    grind
  case h_2 r right found => rfl

end Erase

section Shift

/-- `shift`: an index with the ranges of the set put in before it, as long as they begin by then. -/
def shiftThrough : List Range → ℕ → ℕ
  | [], index => index
  | r :: rs, index => if index < r.first then index else shiftThrough rs (index + r.size)

def shift (index : ℕ) (s : IndexSet) : ℕ := shiftThrough s.ranges index

/-- The first ranges of `add_shifted`, those the index moves past. -/
def passShifted (index : ℕ) (left : List Range) : List Range → ℕ × Cursor
  | [] => (index, ⟨left, []⟩)
  | r :: right =>
    if r.first ≤ index then passShifted (index + r.size) (r :: left) right
    else (index, ⟨left, r :: right⟩)

lemma shiftThrough_spec {rs : List Range} (valid : Valid rs) (index : ℕ) :
    index ≤ shiftThrough rs index ∧ ¬ Contains rs (shiftThrough rs index) ∧
      rank (Contains rs) (shiftThrough rs index) = index := by
  induction rs generalizing index with
  | nil => exact ⟨le_rfl, contains_nil, rank_of_lt nofun⟩
  | cons r rs ih =>
    obtain ⟨head, beyond, tail⟩ := valid_cons.mp valid
    rw [shiftThrough]
    split
    case isTrue before =>
      have all : ∀ b ∈ r :: rs, index < b.first := by grind
      exact ⟨le_rfl, not_contains_of_lt all, rank_of_lt fun b mem => (all b mem).le⟩
    case isFalse after =>
      obtain ⟨up, out, ranked⟩ := ih tail (index + r.size)
      have past : r.second ≤ shiftThrough rs (index + r.size) := by
        rw [Range.size] at up ⊢
        omega
      have counted := rank_cons valid past
      refine ⟨by omega, ?_, by omega⟩
      rw [contains_cons]
      rintro (⟨-, high⟩ | mem)
      · omega
      · exact out mem

lemma passShifted_spec {index : ℕ} {left right : List Range} (valid : Valid right)
    (before : ∀ r ∈ left, r.second ≤ index) :
    (passShifted index left right).1 = shiftThrough right index ∧
    (passShifted index left right).2.ranges = left.reverse ++ right ∧
    (passShifted index left right).2.At (passShifted index left right).1 := by
  induction right generalizing index left with
  | nil => exact ⟨rfl, rfl, before, nofun⟩
  | cons r right ih =>
    obtain ⟨head, beyond, tail⟩ := valid_cons.mp valid
    rw [passShifted, shiftThrough]
    split
    case isTrue within =>
      have passed : ∀ b ∈ r :: left, b.second ≤ index + r.size := by grind
      obtain ⟨same, ranges, here⟩ := ih tail passed
      rw [if_neg (Nat.not_lt_of_le within)]
      refine ⟨same, ?_, here⟩
      rw [ranges]
      simp
    case isFalse after =>
      rw [if_pos (Nat.lt_of_not_le after)]
      exact ⟨rfl, rfl, before, by grind [→ Valid.nonempty]⟩

variable {s : IndexSet} {index x : ℕ}

/-- `add_shifted`: the index without the set's own ranges is put back among them, and added. -/
def addShifted (index : ℕ) (s : IndexSet) : ℕ × IndexSet :=
  let passed := passShifted index [] s.ranges
  have spec := @passShifted_spec index [] s.ranges s.valid nofun
  (passed.1, ⟨(doAdd passed.1 passed.2).ranges,
    (doAdd_added (by rw [spec.2.1]; exact s.valid) spec.2.2).valid⟩)

lemma shift_notMem : s.shift index ∉ s := (shiftThrough_spec s.valid index).2.1

lemma rank_shift : rank (· ∈ s) (s.shift index) = index := (shiftThrough_spec s.valid index).2.2

/-- The index of a rank is the one outside the set that has it. -/
lemma eq_shift_iff : x = s.shift index ↔ x ∉ s ∧ rank (· ∈ s) x = index := by
  constructor
  · rintro rfl
    exact ⟨shift_notMem, rank_shift⟩
  · rintro ⟨out, ranked⟩
    exact rank_inj out shift_notMem (ranked.trans rank_shift.symm)

lemma addShifted_fst : (s.addShifted index).1 = s.shift index :=
  (@passShifted_spec index [] s.ranges s.valid nofun).1

lemma mem_addShifted : x ∈ (s.addShifted index).2 ↔ x = s.shift index ∨ x ∈ s := by
  obtain ⟨same, ranges, here⟩ := @passShifted_spec index [] s.ranges s.valid nofun
  have added := (doAdd_added (by rw [ranges]; exact s.valid) here).contains x
  rw [ranges] at added
  rw [← addShifted_fst]
  exact added

/-- What `count` adds up: how many indexes of each range lie from `start` up to `stop`. -/
def countIn (start stop : ℕ) : List Range → ℕ
  | [] => 0
  | r :: rs =>
    if stop ≤ r.first then 0 else min r.second stop - max r.first start + countIn start stop rs

def count (start stop : ℕ) (s : IndexSet) : ℕ := countIn start stop (s.find start).right

/-- `unshift` of an index that is not in the set. -/
def unshift (index : ℕ) (s : IndexSet) : ℕ := index - s.count 0 index

lemma countIn_spec {rs : List Range} {start stop : ℕ} (valid : Valid rs) (le : start ≤ stop)
    (later : ∀ r ∈ rs, start < r.second) :
    countIn start stop rs + rank (Contains rs) stop = stop - start + rank (Contains rs) start := by
  induction rs with
  | nil =>
    have plain (x : ℕ) : rank (Contains []) x = x := rank_of_lt nofun
    rw [countIn, plain, plain]
    omega
  | cons r rs ih =>
    obtain ⟨head, beyond, tail⟩ := valid_cons.mp valid
    have first := later r List.mem_cons_self
    have begin_rank : rank (Contains (r :: rs)) start = min start r.first := by
      rcases Nat.le_total start r.first with before | inside
      · rw [rank_of_lt (by grind), min_eq_left before]
      · rw [rank_inside valid inside first.le, min_eq_right inside]
    rw [countIn, begin_rank]
    split
    case isTrue before =>
      rw [rank_of_lt (by grind)]
      omega
    case isFalse within =>
      rcases Nat.le_total r.second stop with past | inside
      · have rest := ih tail fun b mem => by grind
        have counted := rank_cons valid past
        have plain : rank (Contains rs) start = start := rank_of_lt (by grind)
        rw [Range.size] at counted
        omega
      · have none : countIn start stop rs = 0 := by
          cases rs with
          | nil => rfl
          | cons b rs => rw [countIn, if_pos (by grind)]
        rw [rank_inside valid (by omega) inside, none]
        omega

/-- `count` counts the members from one index up to another. -/
lemma count_spec {start stop : ℕ} (le : start ≤ stop) :
    s.count start stop + rank (· ∈ s) stop = stop - start + rank (· ∈ s) start := by
  have valid := @find_valid s start
  have here := @find_at s start
  have whole (x : ℕ) (ge : start ≤ x) :
      rank (· ∈ s) x + total (s.find start).left = rank (Contains (s.find start).right) x := by
    have skipped := rank_skip (x := x) valid fun r mem =>
      (here.left r (List.mem_reverse.mp mem)).trans ge
    rw [total_reverse] at skipped
    rw [← skipped, ← Cursor.ranges, ranges_find]
    rfl
  have counted := countIn_spec (valid_append.mp valid).2.1 le here.right
  have low := whole start le_rfl
  have high := whole stop le
  rw [count]
  omega

lemma count_zero : s.count 0 index + rank (· ∈ s) index = index := by
  have counted := @count_spec s 0 index (Nat.zero_le _)
  rwa [rank_zero] at counted

/-- Below a bound of the members their number and the rank make up the bound. -/
lemma total_rank {n : ℕ} (below : ∀ x, x ∈ s → x < n) : total s.ranges + rank (· ∈ s) n = n := by
  have ends (r : Range) (mem : r ∈ s.ranges) : r.second ≤ n := by
    have lt := s.valid.nonempty r mem
    have last := below (r.second - 1) ⟨r, mem, by omega, by omega⟩
    omega
  have valid : Valid (s.ranges ++ []) := by
    rw [List.append_nil]
    exact s.valid
  have skipped := rank_skip valid ends
  rw [List.append_nil, @rank_of_lt [] n (List.forall_mem_nil _)] at skipped
  rw [Nat.add_comm]
  exact skipped

lemma unshift_eq : s.unshift index = rank (· ∈ s) index := by
  have counted := @count_zero s index
  rw [unshift]
  omega

end Shift

section Remove

/-- `do_remove`: the ranges from `start` up to `stop` leave the set. Where the rest of a range is
left behind, the search for the next range passes it or stops at it. -/
def doRemove (start stop : ℕ) (left : List Range) : List Range → Cursor
  | [] => ⟨left, []⟩
  | r :: right =>
    if r.second ≤ start then doRemove start stop (r :: left) right
    else if r.first < stop then
      let start := max r.first start
      if r.first < start ∧ stop < r.second then
        ⟨⟨r.first, start⟩ :: left, ⟨stop, r.second⟩ :: right⟩
      else if start = r.first ∧ r.second ≤ stop then doRemove start stop left right
      else if start = r.first then ⟨left, ⟨stop, r.second⟩ :: right⟩
      else doRemove start stop (⟨r.first, start⟩ :: left) right
    else ⟨left, r :: right⟩

/-- What `do_remove` leaves: valid ranges without those removed, and nothing later on the left. -/
structure Removed (start stop : ℕ) (rs : List Range) (it : Cursor) : Prop where
  valid : Valid it.ranges
  contains : ∀ x, Contains it.ranges x ↔ Contains rs x ∧ ¬ (start ≤ x ∧ x < stop)
  left : ∀ r ∈ it.left, r.second ≤ stop

lemma doRemove_removed {start stop : ℕ} {left right : List Range} (lt : start < stop)
    (valid : Valid (left.reverse ++ right)) (before : ∀ r ∈ left, r.second ≤ start) :
    Removed start stop (left.reverse ++ right) (doRemove start stop left right) := by
  induction right generalizing start left with
  | nil =>
    rw [doRemove]
    have below (x : ℕ) (holds : Contains left x) : x < start := lt_of_contains before holds
    constructor <;> grind
  | cons r right ih =>
    have below (x : ℕ) (holds : Contains left x) : x < start := lt_of_contains before holds
    have above (x : ℕ) (holds : Contains right x) : r.second < x :=
      lt_contains (valid_cons.mp (valid_append.mp valid).2.1).2.1 holds
    rw [doRemove]
    split
    case isTrue past =>
      have rest := @ih start (r :: left) lt (by simpa using valid) (by grind)
      rwa [List.reverse_cons, List.append_assoc, List.cons_append, List.nil_append] at rest
    case isFalse reaches =>
      split
      case isTrue meets =>
        dsimp only
        split_ifs with both whole front
        · constructor <;> grind
        · have rest := @ih (max r.first start) left (by omega) (by grind) (by grind)
          constructor
          · exact rest.valid
          · intro x
            rw [rest.contains]
            grind
          · exact rest.left
        · constructor <;> grind
        · have rest := @ih (max r.first start) (⟨r.first, max r.first start⟩ :: left) (by omega)
            (by grind) (by grind)
          constructor
          · exact rest.valid
          · intro x
            rw [rest.contains]
            grind
          · exact rest.left
      case isFalse beyond =>
        constructor <;> grind

variable {s values : IndexSet} {index count x : ℕ}

/-- `remove`: indexes leave the set, and no other moves. -/
def remove (index count : ℕ) (positive : 0 < count) (s : IndexSet) : IndexSet :=
  let it := s.find index
  ⟨(doRemove index (index + count) it.left it.right).ranges,
    (doRemove_removed (Nat.lt_add_of_pos_right positive) find_valid find_at.left).valid⟩

@[grind =] lemma mem_remove {positive : 0 < count} : x ∈ s.remove index count positive ↔
    x ∈ s ∧ ¬ (index ≤ x ∧ x < index + count) := by
  have removed := doRemove_removed (Nat.lt_add_of_pos_right positive)
    (@find_valid s index) find_at.left
  have members := removed.contains x
  rwa [← Cursor.ranges, ranges_find] at members

/-- `remove` of a set, range by range from one iterator to the next. -/
def removeRanges : List Range → Cursor → Cursor
  | [], it => it
  | v :: values, it =>
    match doRemove v.first v.second it.left it.right with
    | ⟨left, []⟩ => ⟨left, []⟩
    | it => removeRanges values it

lemma removeRanges_spec {vs : List Range} {it : Cursor} (values : Valid vs)
    (valid : Valid it.ranges)
    (before : ∀ v ∈ vs, ∀ r ∈ it.left, r.second ≤ v.first) :
    Valid (removeRanges vs it).ranges ∧
    ∀ x, Contains (removeRanges vs it).ranges x ↔ Contains it.ranges x ∧ ¬ Contains vs x := by
  induction vs generalizing it with
  | nil => exact ⟨valid, fun x => by simp [removeRanges]⟩
  | cons v vs ih =>
    obtain ⟨head, beyond, tail⟩ := valid_cons.mp values
    have removed := doRemove_removed head valid (before v List.mem_cons_self)
    rw [removeRanges]
    split
    case h_1 left done =>
      rw [done] at removed
      refine ⟨removed.valid, fun x => ?_⟩
      -- nothing is left from the end of the range on
      have below (x : ℕ) (holds : Contains left x) : x < v.second :=
        lt_of_contains removed.left holds
      have above (x : ℕ) (holds : Contains vs x) : v.second < x := lt_contains beyond holds
      have members := removed.contains x
      rw [← Cursor.ranges] at members
      grind
    case h_2 it' _ =>
      obtain ⟨fresh, members⟩ := ih tail removed.valid fun b mem r mem' =>
        (removed.left r mem').trans (beyond b mem).le
      refine ⟨fresh, fun x => ?_⟩
      rw [members, removed.contains, contains_cons, ← Cursor.ranges]
      tauto

def removeSet (s values : IndexSet) : IndexSet :=
  ⟨(removeRanges values.ranges (Cursor.start s.ranges)).ranges,
    (@removeRanges_spec values.ranges (Cursor.start s.ranges) values.valid s.valid nofun).1⟩

@[grind =] lemma mem_removeSet : x ∈ s.removeSet values ↔ x ∈ s ∧ x ∉ values :=
  (@removeRanges_spec values.ranges (Cursor.start s.ranges) values.valid s.valid nofun).2 x

/-- `set`: the indexes from zero up to `len`. -/
def set (len : ℕ) : IndexSet :=
  if positive : 0 < len then ⟨[⟨0, len⟩], valid_cons.mpr ⟨positive, nofun, valid_nil⟩⟩ else empty

@[simp, grind =] lemma mem_set {len : ℕ} : x ∈ set len ↔ x < len := by
  unfold set
  split
  · simp [mem_def]
  · simp only [mem_def, empty, contains_nil, false_iff]
    omega

end Remove

end IndexSet

end SpecialtyMap.Notify
