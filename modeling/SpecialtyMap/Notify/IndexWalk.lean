import SpecialtyMap.Notify.IndexSet

/-!
# Index sets by index sets

The operations of `IndexSet` that take a set walk both sets index by index and build the result from
ascending indexes. What they leave is said in terms of the rank of an index, which is where it is
when the members of a set below it are taken out: `shiftForInsertSet` moves the members past the
positions of a set, `eraseSet` takes these positions out, and `addSet` has the members of both.
-/

namespace SpecialtyMap.Notify
open SpecialtyMap.Position

namespace IndexSet

section Build

/-- `as_indexes`: the members one by one. -/
def indexesOf (rs : List Range) : List ℕ := rs.flatMap fun r => List.range' r.first r.size

def asIndexes (s : IndexSet) : List ℕ := indexesOf s.ranges

/-- `ChunkedRangeVectorBuilder::push_back`, on what was pushed so far, last first. -/
def pushBack (data : List Range) (r : Range) : List Range :=
  match data with
  | [] => [r]
  | last :: data =>
    if r.first = last.second then ⟨last.first, r.second⟩ :: data else r :: last :: data

/-- The ranges built from those pushed one after the other. -/
def build (pushed : List Range) : List Range := (pushed.foldl pushBack []).reverse

def single (index : ℕ) : Range := ⟨index, index + 1⟩

variable {rs : List Range} {x : ℕ}

lemma mem_indexesOf : x ∈ indexesOf rs ↔ Contains rs x := by
  simp only [indexesOf, List.mem_flatMap, List.mem_range'_1, Contains, Range.size]
  refine exists_congr fun r => and_congr_right fun _ => ?_
  omega

lemma mem_asIndexes {s : IndexSet} : x ∈ s.asIndexes ↔ x ∈ s := mem_indexesOf

lemma indexesOf_sorted (valid : Valid rs) : (indexesOf rs).Pairwise (· < ·) := by
  induction rs with
  | nil => exact .nil
  | cons r rs ih =>
    obtain ⟨head, beyond, tail⟩ := valid_cons.mp valid
    rw [indexesOf, List.flatMap_cons]
    refine List.pairwise_append.mpr ⟨List.pairwise_lt_range', ih tail, fun a low b high => ?_⟩
    have after := lt_contains beyond (mem_indexesOf.mp high)
    rw [List.mem_range'_1, Range.size] at low
    omega

lemma asIndexes_sorted (s : IndexSet) : s.asIndexes.Pairwise (· < ·) := indexesOf_sorted s.valid

/-- Ranges that may be built from: none is empty, and each ends before the next begins or there. -/
structure Ascending (rs : List Range) : Prop where
  nonempty : ∀ r ∈ rs, r.first < r.second
  ordered : rs.Pairwise fun a b => a.second ≤ b.first

@[grind =] lemma ascending_cons {r : Range} : Ascending (r :: rs) ↔
    r.first < r.second ∧ (∀ b ∈ rs, r.second ≤ b.first) ∧ Ascending rs := by
  constructor
  · rintro ⟨nonempty, ordered⟩
    obtain ⟨head, tail⟩ := List.forall_mem_cons.mp nonempty
    obtain ⟨after, rest⟩ := List.pairwise_cons.mp ordered
    exact ⟨head, after, tail, rest⟩
  · rintro ⟨head, after, tail, rest⟩
    exact ⟨List.forall_mem_cons.mpr ⟨head, tail⟩, List.pairwise_cons.mpr ⟨after, rest⟩⟩

lemma ascending_single {xs : List ℕ} (sorted : xs.Pairwise (· < ·)) :
    Ascending (xs.map single) := by
  induction xs with
  | nil => exact ⟨nofun, .nil⟩
  | cons x xs ih =>
    obtain ⟨after, rest⟩ := List.pairwise_cons.mp sorted
    refine ascending_cons.mpr ⟨Nat.lt_succ_self x, fun b mem => ?_, ih rest⟩
    obtain ⟨y, later, rfl⟩ := List.mem_map.mp mem
    exact after y later

lemma contains_single {xs : List ℕ} : Contains (xs.map single) x ↔ x ∈ xs := by
  simp only [Contains, List.mem_map, single]
  constructor
  · rintro ⟨_, ⟨y, mem, rfl⟩, low, high⟩
    have same : x = y := by
      dsimp only at low high
      omega
    rwa [same]
  · intro mem
    exact ⟨_, ⟨x, mem, rfl⟩, le_rfl, Nat.lt_succ_self x⟩

lemma foldl_pushBack {data : List Range} (pushed : Ascending rs) (valid : Valid data.reverse)
    (before : ∀ a ∈ data, ∀ r ∈ rs, a.second ≤ r.first) :
    Valid (rs.foldl pushBack data).reverse ∧
    ∀ x, Contains (rs.foldl pushBack data) x ↔ Contains data x ∨ Contains rs x := by
  induction rs generalizing data with
  | nil => exact ⟨valid, fun x => by simp⟩
  | cons r rs ih =>
    obtain ⟨head, beyond, tail⟩ := ascending_cons.mp pushed
    have step : Valid (pushBack data r).reverse ∧
        (∀ a ∈ pushBack data r, ∀ b ∈ rs, a.second ≤ b.first) ∧
        ∀ x, Contains (pushBack data r) x ↔ Contains data x ∨ (r.first ≤ x ∧ x < r.second) := by
      cases data with
      | nil =>
        exact ⟨by simp [pushBack, valid_cons, head], by grind [pushBack], by grind [pushBack]⟩
      | cons last data =>
        rw [List.reverse_cons] at valid
        rw [pushBack]
        split
        case isTrue joins => exact ⟨by grind, by grind, by grind⟩
        case isFalse apart =>
          have ends : last.second < r.first :=
            lt_of_le_of_ne (before last List.mem_cons_self r List.mem_cons_self) (Ne.symm apart)
          refine ⟨?_, by grind, by grind⟩
          rw [List.reverse_cons, List.reverse_cons, List.append_assoc]
          grind
    obtain ⟨fresh, after, members⟩ := step
    obtain ⟨whole, contains⟩ := ih tail fresh after
    refine ⟨whole, fun x => ?_⟩
    rw [List.foldl_cons, contains, members, contains_cons, or_assoc]

lemma build_valid (pushed : Ascending rs) : Valid (build rs) :=
  (@foldl_pushBack rs [] pushed valid_nil nofun).1

lemma contains_build (pushed : Ascending rs) : Contains (build rs) x ↔ Contains rs x := by
  rw [build, contains_reverse, (@foldl_pushBack rs [] pushed valid_nil nofun).2]
  simp

/-- The set of ascending indexes. -/
def ofIndexes (xs : List ℕ) (sorted : xs.Pairwise (· < ·)) : IndexSet :=
  ⟨build (xs.map single), build_valid (ascending_single sorted)⟩

@[simp] lemma mem_ofIndexes {xs : List ℕ} {sorted : xs.Pairwise (· < ·)} :
    x ∈ ofIndexes xs sorted ↔ x ∈ xs :=
  (contains_build (ascending_single sorted)).trans contains_single

end Build

section Walk

/-- `shift_for_insert_at` of a set: the indexes of `xs` move past those of `ys`. -/
def shiftWalk (shift : ℕ) : List ℕ → List ℕ → List ℕ
  | [], _ => []
  | x :: xs, [] => (x :: xs).map (· + shift)
  | x :: xs, y :: ys =>
    if x + shift < y then (x + shift) :: shiftWalk shift xs (y :: ys)
    else shiftWalk (shift + 1) (x :: xs) ys

/-- `erase_at` of a set: the indexes of `ys` go, and those of `xs` move back. -/
def eraseWalk (shift : ℕ) : List ℕ → List ℕ → List ℕ
  | [], _ => []
  | x :: xs, [] => (x :: xs).map (· - shift)
  | x :: xs, y :: ys =>
    if x < y then (x - shift) :: eraseWalk shift xs (y :: ys)
    else if x = y then eraseWalk (shift + 1) xs ys
    else eraseWalk (shift + 1) (x :: xs) ys

variable {shift x y z : ℕ} {xs ys : List ℕ}

lemma rank_list_of_le (after : ∀ y ∈ ys, z ≤ y) : rank (· ∈ ys) z = z := by
  refine rank_of_stays fun w lt mem => ?_
  exact absurd (after w mem) (Nat.not_le_of_lt lt)

/-- The first of ascending indexes takes one from the rank of those after it. -/
lemma rank_list_cons (after : ∀ w ∈ ys, y < w) (lt : y < z) :
    rank (· ∈ y :: ys) z + 1 = rank (· ∈ ys) z := by
  obtain ⟨n, rfl⟩ := Nat.exists_eq_add_of_lt lt
  have past (p : ℕ → Prop) [DecidablePred p] :
      rank p (y + n + 1) = rank p y + (if p y then 0 else 1) + rank (fun k => p (y + 1 + k)) n := by
    rw [Nat.add_right_comm, rank_add, rank_succ]
  have low : rank (· ∈ y :: ys) y = y :=
    rank_list_of_le (List.forall_mem_cons.mpr ⟨le_rfl, fun w mem => (after w mem).le⟩)
  have plain : rank (· ∈ ys) y = y := rank_list_of_le fun w mem => (after w mem).le
  have out : y ∉ ys := fun mem => absurd (after y mem) (Nat.lt_irrefl y)
  have rest : rank (fun k => y + 1 + k ∈ y :: ys) n = rank (fun k => y + 1 + k ∈ ys) n := by
    refine rank_congr fun k _ => ?_
    rw [List.mem_cons]
    exact or_iff_right (by omega)
  rw [past, past, low, plain, rest, if_pos List.mem_cons_self, if_neg out]
  omega

lemma shiftWalk_sorted {low : ℕ} (sorted : xs.Pairwise (· < ·))
    (above : ∀ x ∈ xs, low ≤ x + shift) :
    (shiftWalk shift xs ys).Pairwise (· < ·) ∧ ∀ z ∈ shiftWalk shift xs ys, low ≤ z := by
  induction shift, xs, ys using shiftWalk.induct generalizing low with
  | case1 shift ys =>
    rw [shiftWalk]
    exact ⟨.nil, nofun⟩
  | case2 shift x xs =>
    rw [shiftWalk]
    refine ⟨List.pairwise_map.mpr (sorted.imp fun lt => Nat.add_lt_add_right lt shift),
      fun z mem => ?_⟩
    obtain ⟨w, old, rfl⟩ := List.mem_map.mp mem
    exact above w old
  | case3 shift x xs y ys before ih =>
    obtain ⟨first, rest⟩ := List.pairwise_cons.mp sorted
    rw [shiftWalk, if_pos before]
    obtain ⟨tail, after⟩ := @ih (x + shift + 1) rest (by grind)
    have ge := above x List.mem_cons_self
    refine ⟨List.pairwise_cons.mpr ⟨after, tail⟩, List.forall_mem_cons.mpr ⟨ge, fun z mem => ?_⟩⟩
    exact ge.trans (Nat.le_of_succ_le (after z mem))
  | case4 shift x xs y ys after ih =>
    rw [shiftWalk, if_neg after]
    exact ih sorted fun w mem => (above w mem).trans (by omega)

lemma mem_shiftWalk (sorted : xs.Pairwise (· < ·)) (sorted' : ys.Pairwise (· < ·)) :
    z ∈ shiftWalk shift xs ys ↔ z ∉ ys ∧ ∃ x ∈ xs, rank (· ∈ ys) z = x + shift := by
  induction shift, xs, ys using shiftWalk.induct with
  | case1 shift ys => simp [shiftWalk]
  | case2 shift x xs =>
    have plain : rank (· ∈ ([] : List ℕ)) z = z := rank_list_of_le (List.forall_mem_nil _)
    rw [shiftWalk, plain, List.mem_map]
    grind
  | case3 shift x xs y ys before ih =>
    obtain ⟨first, rest⟩ := List.pairwise_cons.mp sorted
    obtain ⟨first', -⟩ := List.pairwise_cons.mp sorted'
    rw [shiftWalk, if_pos before, List.mem_cons, ih rest sorted']
    have out : x + shift ∉ y :: ys := by grind
    have here : rank (· ∈ y :: ys) (x + shift) = x + shift := rank_list_of_le (by grind)
    have only : z ∉ y :: ys → (rank (· ∈ y :: ys) z = x + shift ↔ z = x + shift) := fun stays =>
      ⟨fun same => rank_inj stays out (same.trans here.symm), fun same => by rw [same, here]⟩
    simp only [List.exists_mem_cons_iff]
    grind
  | case4 shift x xs y ys after ih =>
    obtain ⟨first, rest⟩ := List.pairwise_cons.mp sorted
    obtain ⟨first', rest'⟩ := List.pairwise_cons.mp sorted'
    rw [shiftWalk, if_neg after, ih sorted rest']
    rcases Nat.lt_trichotomy z y with before | same | past
    · have low : rank (· ∈ y :: ys) z = z := rank_list_of_le (by grind)
      have low' : rank (· ∈ ys) z = z := rank_list_of_le (by grind)
      rw [low, low']
      grind
    · have plain : rank (· ∈ ys) z = z := rank_list_of_le (by grind)
      grind
    · have counted := rank_list_cons first' past
      grind

lemma eraseWalk_sorted {low : ℕ} (sorted : xs.Pairwise (· < ·)) (sorted' : ys.Pairwise (· < ·))
    (above : ∀ x ∈ xs, low + shift ≤ x) (above' : ∀ y ∈ ys, low + shift ≤ y) :
    (eraseWalk shift xs ys).Pairwise (· < ·) ∧ ∀ z ∈ eraseWalk shift xs ys, low ≤ z := by
  induction shift, xs, ys using eraseWalk.induct generalizing low with
  | case1 shift ys =>
    rw [eraseWalk]
    exact ⟨.nil, nofun⟩
  | case2 shift x xs =>
    rw [eraseWalk]
    refine ⟨List.pairwise_map.mpr (sorted.imp_of_mem fun mem mem' lt => ?_), fun z mem => ?_⟩
    · have ge := above _ mem
      omega
    · obtain ⟨w, old, rfl⟩ := List.mem_map.mp mem
      have ge := above w old
      omega
  | case3 shift x xs y ys before ih =>
    obtain ⟨first, rest⟩ := List.pairwise_cons.mp sorted
    obtain ⟨first', -⟩ := List.pairwise_cons.mp sorted'
    rw [eraseWalk, if_pos before]
    have ge := above x List.mem_cons_self
    obtain ⟨tail, after⟩ := @ih (x - shift + 1) rest sorted' (by grind) (by grind)
    refine ⟨List.pairwise_cons.mpr ⟨after, tail⟩,
      List.forall_mem_cons.mpr ⟨by omega, fun z mem => ?_⟩⟩
    have le := after z mem
    omega
  | case4 shift xs y ys after ih =>
    obtain ⟨first, rest⟩ := List.pairwise_cons.mp sorted
    obtain ⟨first', rest'⟩ := List.pairwise_cons.mp sorted'
    rw [eraseWalk, if_neg after, if_pos rfl]
    have ge := above' y List.mem_cons_self
    exact ih rest rest' (by grind) (by grind)
  | case5 shift x xs y ys after other ih =>
    obtain ⟨first, -⟩ := List.pairwise_cons.mp sorted
    obtain ⟨first', rest'⟩ := List.pairwise_cons.mp sorted'
    rw [eraseWalk, if_neg after, if_neg other]
    have ge := above' y List.mem_cons_self
    exact ih sorted rest' (by grind) (by grind)

lemma mem_eraseWalk (sorted : xs.Pairwise (· < ·)) (sorted' : ys.Pairwise (· < ·))
    (above : ∀ x ∈ xs, shift ≤ x) (above' : ∀ y ∈ ys, shift ≤ y) :
    z ∈ eraseWalk shift xs ys ↔ ∃ x ∈ xs, x ∉ ys ∧ rank (· ∈ ys) x = z + shift := by
  induction shift, xs, ys using eraseWalk.induct with
  | case1 shift ys => simp [eraseWalk]
  | case2 shift x xs =>
    rw [eraseWalk, List.mem_map]
    refine exists_congr fun w => and_congr_right fun mem => ?_
    have plain : rank (· ∈ ([] : List ℕ)) w = w := rank_list_of_le (List.forall_mem_nil _)
    have ge := above w mem
    rw [plain, and_iff_right List.not_mem_nil]
    omega
  | case3 shift x xs y ys before ih =>
    obtain ⟨first, rest⟩ := List.pairwise_cons.mp sorted
    obtain ⟨first', -⟩ := List.pairwise_cons.mp sorted'
    have ge := above x List.mem_cons_self
    have out : x ∉ y :: ys := by grind
    have here : rank (· ∈ y :: ys) x = x := rank_list_of_le (by grind)
    rw [eraseWalk, if_pos before, List.mem_cons, ih rest sorted' (by grind) above']
    simp only [List.exists_mem_cons_iff, here, out, not_false_eq_true, true_and]
    grind
  | case4 shift xs y ys after ih =>
    obtain ⟨first, rest⟩ := List.pairwise_cons.mp sorted
    obtain ⟨first', rest'⟩ := List.pairwise_cons.mp sorted'
    have ge := above' y List.mem_cons_self
    rw [eraseWalk, if_neg after, if_pos rfl, ih rest rest' (by grind) (by grind)]
    have counted (x : ℕ) (mem : x ∈ xs) := rank_list_cons first' (first x mem)
    simp only [List.exists_mem_cons_iff]
    grind
  | case5 shift x xs y ys after other ih =>
    obtain ⟨first, rest⟩ := List.pairwise_cons.mp sorted
    obtain ⟨first', rest'⟩ := List.pairwise_cons.mp sorted'
    have ge := above' y List.mem_cons_self
    have past : ∀ w ∈ x :: xs, y < w := by grind
    have counted (w : ℕ) (mem : w ∈ x :: xs) := rank_list_cons first' (past w mem)
    rw [eraseWalk, if_neg after, if_neg other, ih sorted rest' (by grind) (by grind)]
    refine exists_congr fun w => and_congr_right fun mem => ?_
    have one := counted w mem
    have gt := past w mem
    grind

end Walk

section Sets
variable {s positions values other : IndexSet} {x : ℕ}

/-- `shift_for_insert_at` of a set. -/
def shiftForInsertSet (s values : IndexSet) : IndexSet :=
  match s.ranges.getLast?, values.ranges.head? with
  | some last, some first =>
    if last.second ≤ first.first then s
    else ofIndexes (shiftWalk 0 s.asIndexes values.asIndexes)
      (shiftWalk_sorted s.asIndexes_sorted fun x _ => Nat.zero_le (x + 0)).1
  | _, _ => s

/-- `erase_at` of a set. -/
def eraseSet (s positions : IndexSet) : IndexSet :=
  if s.ranges = [] ∨ positions.ranges = [] then s
  else ofIndexes (eraseWalk 0 s.asIndexes positions.asIndexes)
    (eraseWalk_sorted s.asIndexes_sorted positions.asIndexes_sorted (fun x _ => Nat.zero_le x)
      fun y _ => Nat.zero_le y).1

/-- `add` of ascending indexes, from one iterator to the next. -/
def addIndexes : List ℕ → Cursor → Cursor
  | [], it => it
  | x :: xs, it => addIndexes xs (doAdd x (it.seek x))

lemma addIndexes_spec {xs : List ℕ} {it : Cursor} (sorted : xs.Pairwise (· < ·))
    (valid : Valid it.ranges) (before : ∀ x ∈ xs, ∀ r ∈ it.left, r.second ≤ x) :
    Valid (addIndexes xs it).ranges ∧
    ∀ x, Contains (addIndexes xs it).ranges x ↔ x ∈ xs ∨ Contains it.ranges x := by
  induction xs generalizing it with
  | nil => exact ⟨valid, fun x => by simp [addIndexes]⟩
  | cons y ys ih =>
    obtain ⟨first, rest⟩ := List.pairwise_cons.mp sorted
    have here := Cursor.seek_at valid (before y List.mem_cons_self)
    have added := doAdd_added (by rwa [Cursor.ranges_seek]) here
    obtain ⟨fresh, members⟩ := ih rest added.valid fun x mem r mem' =>
      (added.here.left r mem').trans (first x mem).le
    refine ⟨fresh, fun x => ?_⟩
    rw [addIndexes, members, added.contains, Cursor.ranges_seek, List.mem_cons]
    tauto

/-- `add` of a set. -/
def addSet (s other : IndexSet) : IndexSet :=
  ⟨(addIndexes other.asIndexes (Cursor.start s.ranges)).ranges,
    (@addIndexes_spec other.asIndexes (Cursor.start s.ranges) other.asIndexes_sorted s.valid
      fun _ _ => nofun).1⟩

lemma notMem_of_ranges (bare : s.ranges = []) : x ∉ s := by
  rw [mem_def, bare]
  exact contains_nil

lemma rank_asIndexes : rank (· ∈ s.asIndexes) x = rank (· ∈ s) x :=
  rank_congr fun _ _ => mem_asIndexes

/-- An empty set leaves every rank as it is. -/
lemma rank_of_ranges (bare : s.ranges = []) : rank (· ∈ s) x = x :=
  rank_of_stays fun _ _ => notMem_of_ranges bare

/-- Indexes after all members of a set move none of them. -/
lemma mem_iff_of_after {last : ℕ} (before : ∀ y ∈ s, y < last) (after : ∀ y ∈ values, last ≤ y) :
    x ∈ s ↔ x ∉ values ∧ rank (· ∈ values) x ∈ s := by
  have plain (y : ℕ) (le : y ≤ last) : rank (· ∈ values) y = y := rank_of_stays fun z lt mem =>
    absurd (after z mem) (Nat.not_le_of_lt (lt_of_lt_of_le lt le))
  rcases Nat.lt_or_ge x last with lt | ge
  · rw [plain x lt.le]
    exact (and_iff_right fun mem => absurd (after x mem) (Nat.not_le_of_lt lt)).symm
  · have high : last ≤ rank (· ∈ values) x := by
      rw [← plain last le_rfl]
      exact rank_mono ge
    constructor
    · exact fun mem => absurd (before x mem) (Nat.not_lt_of_le ge)
    · exact fun both => absurd (before _ both.2) (Nat.not_lt_of_le high)

@[grind =] lemma mem_shiftForInsertSet : x ∈ s.shiftForInsertSet values ↔
    x ∉ values ∧ rank (· ∈ values) x ∈ s := by
  unfold shiftForInsertSet
  split
  case h_1 last first isLast isFirst =>
    split
    case isTrue apart =>
      refine mem_iff_of_after (fun y mem => ?_) fun y mem => apart.trans ?_
      · -- the last range ends after all others
        obtain ⟨front, split⟩ := List.getLast?_eq_some_iff.mp isLast
        have valid := s.valid
        rw [mem_def, split, contains_append, contains_cons] at mem
        rw [split] at valid
        obtain ⟨-, one, between⟩ := valid_append.mp valid
        have head := (valid_cons.mp one).1
        have before : ∀ r ∈ front, r.second ≤ last.second := by grind
        rcases mem with early | here | none
        · exact lt_of_contains before early
        · exact here.2
        · exact absurd none contains_nil
      · obtain ⟨rest, split⟩ := List.head?_eq_some_iff.mp isFirst
        have valid := values.valid
        rw [mem_def, split, contains_cons] at mem
        rw [split] at valid
        obtain ⟨head, beyond, -⟩ := valid_cons.mp valid
        exact mem.elim And.left fun later => (head.trans (lt_contains beyond later)).le
    case isFalse =>
      rw [mem_ofIndexes, mem_shiftWalk s.asIndexes_sorted values.asIndexes_sorted, rank_asIndexes]
      simp [mem_asIndexes]
  case h_2 bare =>
    cases isLast : s.ranges.getLast? with
    | none => simp [notMem_of_ranges (List.getLast?_eq_none_iff.mp isLast)]
    | some last =>
      cases isFirst : values.ranges.head? with
      | none =>
        have bare := List.head?_eq_none_iff.mp isFirst
        rw [rank_of_ranges bare]
        simp [notMem_of_ranges bare]
      | some first => exact (bare last first isLast isFirst).elim

@[grind =] lemma mem_eraseSet : x ∈ s.eraseSet positions ↔
    ∃ y ∈ s, y ∉ positions ∧ rank (· ∈ positions) y = x := by
  unfold eraseSet
  split
  case isTrue bare =>
    rcases bare with bare | bare
    · simp [notMem_of_ranges bare]
    · constructor
      · exact fun mem => ⟨x, mem, notMem_of_ranges bare, rank_of_ranges bare⟩
      · rintro ⟨y, mem, -, rfl⟩
        rwa [rank_of_ranges bare]
  case isFalse =>
    rw [mem_ofIndexes, mem_eraseWalk s.asIndexes_sorted positions.asIndexes_sorted
      (fun x _ => Nat.zero_le x) fun y _ => Nat.zero_le y]
    refine exists_congr fun y => ?_
    rw [rank_asIndexes, mem_asIndexes, mem_asIndexes, Nat.add_zero]

@[grind =] lemma mem_addSet : x ∈ s.addSet other ↔ x ∈ other ∨ x ∈ s :=
  ((@addIndexes_spec other.asIndexes (Cursor.start s.ranges) other.asIndexes_sorted s.valid
    fun _ _ => nofun).2 x).trans (or_congr_left mem_asIndexes)

end Sets

end IndexSet

end SpecialtyMap.Notify
