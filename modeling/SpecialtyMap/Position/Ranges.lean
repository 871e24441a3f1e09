import SpecialtyMap.Position.Drop

/-!
# Sets of positions as ranges

A set of natural numbers written as its maximal ranges, in ascending order with a gap between any
two (`Valid`), and a cursor between two of them. The cursor holds the ranges on its left nearest
first, so that the range before it and the range after it are both at hand.

Moving the cursor forward past the ranges that end at a position or before it (`seek`) puts it where
the position belongs: what lies left ends by then, and what lies right ends later.
-/

namespace SpecialtyMap.Position

/-- The positions from `first` up to, and without, `second`. -/
structure Range where
  first : ℕ
  second : ℕ
deriving DecidableEq

@[grind =] def Range.size (r : Range) : ℕ := r.second - r.first

/-- How many positions the ranges hold. -/
def total : List Range → ℕ
  | [] => 0
  | r :: rs => r.size + total rs

/-- The range moved towards larger positions. -/
def Range.shift (count : ℕ) (r : Range) : Range := ⟨r.first + count, r.second + count⟩

/-- The range moved down by one position. -/
def Range.shiftBack (r : Range) : Range := ⟨r.first - 1, r.second - 1⟩

@[simp, grind =] lemma shift_first {count : ℕ} {r : Range} :
    (r.shift count).first = r.first + count := rfl

@[simp, grind =] lemma shift_second {count : ℕ} {r : Range} :
    (r.shift count).second = r.second + count := rfl

@[simp, grind =] lemma shiftBack_first {r : Range} : r.shiftBack.first = r.first - 1 := rfl

@[simp, grind =] lemma shiftBack_second {r : Range} : r.shiftBack.second = r.second - 1 := rfl

def Contains (rs : List Range) (x : ℕ) : Prop := ∃ r ∈ rs, r.first ≤ x ∧ x < r.second

instance {rs : List Range} {x : ℕ} : Decidable (Contains rs x) :=
  inferInstanceAs (Decidable (∃ r ∈ rs, r.first ≤ x ∧ x < r.second))

/-- No range is empty, and each ends before the next begins, with a gap between them. -/
structure Valid (rs : List Range) : Prop where
  nonempty : ∀ r ∈ rs, r.first < r.second
  apart : rs.Pairwise fun a b => a.second < b.first

section
variable {rs rs' : List Range} {r : Range} {x : ℕ}

@[simp, grind .] lemma contains_nil : ¬ Contains [] x := nofun

@[simp, grind =] lemma contains_cons : Contains (r :: rs) x ↔ (r.first ≤ x ∧ x < r.second) ∨
    Contains rs x := by
  simp [Contains]

@[simp, grind =] lemma contains_append : Contains (rs ++ rs') x ↔ Contains rs x ∨
    Contains rs' x := by
  simp [Contains, or_and_right, exists_or]

@[simp, grind =] lemma contains_reverse : Contains rs.reverse x ↔ Contains rs x := by
  simp [Contains]

@[grind =] lemma contains_shift {count : ℕ} :
    Contains (rs.map (Range.shift count)) x ↔ count ≤ x ∧ Contains rs (x - count) := by
  simp only [Contains, List.mem_map]
  constructor
  · rintro ⟨_, ⟨r, mem, rfl⟩, low, high⟩
    simp only [shift_first, shift_second] at low high
    exact ⟨by omega, r, mem, by omega, by omega⟩
  · rintro ⟨le, r, mem, low, high⟩
    refine ⟨_, ⟨r, mem, rfl⟩, ?_, ?_⟩
    · rw [shift_first]
      omega
    · rw [shift_second]
      omega

/-- Ranges beyond a position hold no position up to it. -/
lemma not_contains_of_lt (beyond : ∀ r ∈ rs, x < r.first) : ¬ Contains rs x := by
  rintro ⟨r, mem, low, -⟩
  exact absurd (beyond r mem) (Nat.not_lt_of_le low)

lemma not_contains_of_le (before : ∀ r ∈ rs, r.second ≤ x) : ¬ Contains rs x := by
  rintro ⟨r, mem, -, high⟩
  exact absurd high (Nat.not_lt_of_le (before r mem))

lemma lt_of_contains {y : ℕ} (before : ∀ r ∈ rs, r.second ≤ y) (holds : Contains rs x) : x < y := by
  obtain ⟨r, mem, -, high⟩ := holds
  exact lt_of_lt_of_le high (before r mem)

lemma lt_contains {y : ℕ} (beyond : ∀ r ∈ rs, y < r.first) (holds : Contains rs x) : y < x := by
  obtain ⟨r, mem, low, -⟩ := holds
  exact lt_of_lt_of_le (beyond r mem) low

lemma contains_shiftBack (positive : ∀ r ∈ rs, 0 < r.first) :
    Contains (rs.map Range.shiftBack) x ↔ Contains rs (x + 1) := by
  simp only [Contains, List.mem_map]
  constructor
  · rintro ⟨_, ⟨r, mem, rfl⟩, low, high⟩
    simp only [shiftBack_first, shiftBack_second] at low high
    exact ⟨r, mem, by omega, by omega⟩
  · rintro ⟨r, mem, low, high⟩
    have first := positive r mem
    refine ⟨_, ⟨r, mem, rfl⟩, ?_, ?_⟩
    · rw [shiftBack_first]
      omega
    · rw [shiftBack_second]
      omega

@[simp, grind .] lemma valid_nil : Valid [] := ⟨nofun, .nil⟩

@[grind =] lemma valid_cons : Valid (r :: rs) ↔
    r.first < r.second ∧ (∀ b ∈ rs, r.second < b.first) ∧ Valid rs := by
  constructor
  · rintro ⟨nonempty, apart⟩
    obtain ⟨head, tail⟩ := List.forall_mem_cons.mp nonempty
    obtain ⟨after, rest⟩ := List.pairwise_cons.mp apart
    exact ⟨head, after, tail, rest⟩
  · rintro ⟨head, after, tail, rest⟩
    exact ⟨List.forall_mem_cons.mpr ⟨head, tail⟩, List.pairwise_cons.mpr ⟨after, rest⟩⟩

@[grind =] lemma valid_append : Valid (rs ++ rs') ↔
    Valid rs ∧ Valid rs' ∧ ∀ a ∈ rs, ∀ b ∈ rs', a.second < b.first := by
  induction rs with
  | nil => simp
  | cons r rs ih =>
    simp only [List.cons_append, valid_cons, ih, List.mem_append, List.forall_mem_cons]
    constructor
    · rintro ⟨head, after, tail, rest, between⟩
      exact ⟨⟨head, fun b mem => after b (.inl mem), tail⟩, rest,
        fun b mem => after b (.inr mem), between⟩
    · rintro ⟨⟨head, after, tail⟩, rest, beyond, between⟩
      exact ⟨head, fun b mem => mem.elim (after b) (beyond b), tail, rest, between⟩

lemma valid_shift {count : ℕ} (valid : Valid rs) : Valid (rs.map (Range.shift count)) := by
  induction rs with
  | nil => exact valid_nil
  | cons r rs ih =>
    obtain ⟨head, after, tail⟩ := valid_cons.mp valid
    refine valid_cons.mpr ⟨Nat.add_lt_add_right head count, fun b mem => ?_, ih tail⟩
    obtain ⟨b, old, rfl⟩ := List.mem_map.mp mem
    exact Nat.add_lt_add_right (after b old) count

lemma valid_shiftBack (valid : Valid rs) (positive : ∀ r ∈ rs, 0 < r.first) :
    Valid (rs.map Range.shiftBack) := by
  induction rs with
  | nil => exact valid_nil
  | cons r rs ih =>
    obtain ⟨head, after, tail⟩ := valid_cons.mp valid
    obtain ⟨first, others⟩ := List.forall_mem_cons.mp positive
    refine valid_cons.mpr ⟨?_, fun b mem => ?_, ih tail others⟩
    · simp only [shiftBack_first, shiftBack_second]
      omega
    · obtain ⟨b, old, rfl⟩ := List.mem_map.mp mem
      have beyond := after b old
      have first := others b old
      simp only [shiftBack_first, shiftBack_second]
      omega

end

section Rank
variable {rs : List Range} {r : Range} {x : ℕ}

/-- Positions before the first range keep their place. -/
lemma rank_of_lt (beyond : ∀ r ∈ rs, x ≤ r.first) : rank (Contains rs) x = x := by
  refine rank_of_stays fun y lt => not_contains_of_lt fun r mem => ?_
  exact Nat.lt_of_lt_of_le lt (beyond r mem)

/-- All positions of a range, and the first after it, have the rank of its first. -/
lemma rank_inside (valid : Valid (r :: rs)) (low : r.first ≤ x) (high : x ≤ r.second) :
    rank (Contains (r :: rs)) x = r.first := by
  obtain ⟨head, beyond, -⟩ := valid_cons.mp valid
  obtain ⟨n, rfl⟩ := Nat.exists_eq_add_of_le low
  have first : rank (Contains (r :: rs)) r.first = r.first :=
    rank_of_lt (List.forall_mem_cons.mpr ⟨le_rfl, fun b mem => head.le.trans (beyond b mem).le⟩)
  have inside : rank (fun k => Contains (r :: rs) (r.first + k)) n = 0 :=
    rank_of_gone fun y lt => contains_cons.mpr (.inl ⟨by omega, by omega⟩)
  rw [rank_add, first, inside, Nat.add_zero]

/-- A range takes its size from the rank of the positions after it. -/
lemma rank_cons (valid : Valid (r :: rs)) (after : r.second ≤ x) :
    rank (Contains (r :: rs)) x + r.size = rank (Contains rs) x := by
  obtain ⟨head, beyond, -⟩ := valid_cons.mp valid
  obtain ⟨n, rfl⟩ := Nat.exists_eq_add_of_le after
  have rest : rank (fun k => Contains (r :: rs) (r.second + k)) n =
      rank (fun k => Contains rs (r.second + k)) n := by
    refine rank_congr fun y _ => ?_
    rw [contains_cons]
    exact or_iff_right fun holds => by omega
  have plain : rank (Contains rs) r.second = r.second := rank_of_lt fun b mem => (beyond b mem).le
  rw [rank_add, rank_add, rest, plain, rank_inside valid head.le le_rfl, Range.size]
  omega

/-- So do all the ranges a position has passed. -/
lemma rank_skip {rs' : List Range} (valid : Valid (rs ++ rs')) (passed : ∀ r ∈ rs, r.second ≤ x) :
    rank (Contains (rs ++ rs')) x + total rs = rank (Contains rs') x := by
  induction rs with
  | nil => rfl
  | cons r rs ih =>
    rw [List.cons_append] at valid ⊢
    obtain ⟨head, others⟩ := List.forall_mem_cons.mp passed
    have rest := ih (valid_cons.mp valid).2.2 others
    have first := rank_cons valid head
    rw [total]
    omega

lemma total_append (rs rs' : List Range) : total (rs ++ rs') = total rs + total rs' := by
  induction rs with
  | nil => simp [total]
  | cons r rs ih => rw [List.cons_append, total, total, ih, Nat.add_assoc]

lemma total_reverse (rs : List Range) : total rs.reverse = total rs := by
  induction rs with
  | nil => rfl
  | cons r rs ih =>
    rw [List.reverse_cons, total_append, ih, total, total, total, Nat.add_zero, Nat.add_comm]

end Rank

/-- A place between two ranges of a list, with those on its left nearest first. -/
structure Cursor where
  left : List Range
  right : List Range

namespace Cursor

def ranges (c : Cursor) : List Range := c.left.reverse ++ c.right

def start (rs : List Range) : Cursor := ⟨[], rs⟩

/-- The next place, past the range on the right. -/
def next : Cursor → Cursor
  | ⟨left, r :: right⟩ => ⟨r :: left, right⟩
  | c => c

/-- Forward past the ranges that end by `index`. -/
def seek (index : ℕ) (c : Cursor) : Cursor := go c.left c.right
where
  go (left : List Range) : List Range → Cursor
    | [] => ⟨left, []⟩
    | r :: right => if r.second ≤ index then go (r :: left) right else ⟨left, r :: right⟩

/-- The cursor stands where `index` belongs. -/
structure At (index : ℕ) (c : Cursor) : Prop where
  left : ∀ r ∈ c.left, r.second ≤ index
  right : ∀ r ∈ c.right, index < r.second

variable {index : ℕ} {c : Cursor}

@[grind =] lemma at_mk (left right : List Range) :
    At index ⟨left, right⟩ ↔ (∀ r ∈ left, r.second ≤ index) ∧ ∀ r ∈ right, index < r.second :=
  ⟨fun here => ⟨here.left, here.right⟩, fun ⟨before, after⟩ => ⟨before, after⟩⟩

@[grind =] lemma next_cons (left right : List Range) (r : Range) :
    next ⟨left, r :: right⟩ = ⟨r :: left, right⟩ := rfl

@[grind =] lemma ranges_mk (left right : List Range) :
    ranges ⟨left, right⟩ = left.reverse ++ right := rfl

@[simp] lemma ranges_next (c : Cursor) : c.next.ranges = c.ranges := by
  obtain ⟨left, right⟩ := c
  cases right with
  | nil => rfl
  | cons r right => simp [next, ranges]

@[simp] lemma ranges_seek (index : ℕ) (c : Cursor) : (c.seek index).ranges = c.ranges := by
  obtain ⟨left, right⟩ := c
  have go : (seek.go index left right).ranges = left.reverse ++ right := by
    induction right generalizing left with
    | nil => rfl
    | cons r right ih =>
      rw [seek.go]
      split
      · rw [ih]
        simp
      · rfl
  exact go

/-- In a valid list the ranges from the first that ends later on all end later. -/
lemma seek_at (valid : Valid c.ranges) (before : ∀ r ∈ c.left, r.second ≤ index) :
    (c.seek index).At index := by
  obtain ⟨left, right⟩ := c
  have after : Valid right := (valid_append.mp valid).2.1
  have go : (seek.go index left right).At index := by
    clear valid
    induction right generalizing left with
    | nil => exact ⟨before, nofun⟩
    | cons r right ih =>
      obtain ⟨head, beyond, tail⟩ := valid_cons.mp after
      rw [seek.go]
      split
      case isTrue ends => exact ih _ (List.forall_mem_cons.mpr ⟨ends, before⟩) tail
      case isFalse later =>
        refine ⟨before, List.forall_mem_cons.mpr ⟨by omega, fun b mem => ?_⟩⟩
        have apart := beyond b mem
        have nonempty := tail.nonempty b mem
        omega
  exact go

/-- The rank of a position outside the ranges, where the cursor stands. -/
lemma At.rank (here : c.At index) (valid : Valid c.ranges) (out : ¬ Contains c.ranges index) :
    rank (Contains c.ranges) index + total c.left = index := by
  obtain ⟨left, right⟩ := c
  have later : ∀ r ∈ right, index ≤ r.first := by
    intro r mem
    by_contra around
    exact out (contains_append.mpr (.inr ⟨r, mem, by omega, here.right r mem⟩))
  have passed : ∀ r ∈ left.reverse, r.second ≤ index := fun r mem =>
    here.left r (List.mem_reverse.mp mem)
  have skipped := rank_skip valid passed
  rw [total_reverse, rank_of_lt later] at skipped
  exact skipped

end Cursor

end SpecialtyMap.Position
