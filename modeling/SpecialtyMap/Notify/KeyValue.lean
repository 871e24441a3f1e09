import SpecialtyMap.Notify.Observer

/-!
# Changes of a list without moves

Key-value observers of a list are told of one kind of change at a time, and of no moves.
`KVOAdapter` makes one kind out of what a builder holds. Where every insertion and every deletion
comes from a move, the rows between the first and the last of them are walked through, with the
number of insertions and deletions passed so far, and reported as assigned to unless they are where
they were.

The walk goes past one insertion at most for each old row. So it is exact if no two inserted rows
are next to each other (`mem_shiftedRows`); else it can miss a row.
-/

namespace SpecialtyMap.Notify
open SpecialtyMap.Log SpecialtyMap.Machine SpecialtyMap.Position

/-- `BindingContext::ColumnInfo::Kind`. -/
inductive Kind where
  | none
  | set
  | insert
  | remove
  | setAll
deriving DecidableEq

/-- `BindingContext::ColumnInfo`. -/
structure ColumnInfo where
  kind : Kind := .none
  indices : IndexSet := .empty

/-- The assertions of the adapter. Only a build for debugging makes the first. -/
inductive AdapterAssertion where
  | notDeleted
  | columnNotModified
  | noDeletions
deriving DecidableEq

namespace IndexSet

/-- The first index of a set that is not empty. -/
def front (s : IndexSet) : ℕ :=
  match s.ranges with
  | [] => 0
  | r :: _ => r.first

/-- The index after the last of a set that is not empty. -/
def back (s : IndexSet) : ℕ :=
  match s.ranges.getLast? with
  | none => 0
  | some r => r.second

variable {s : IndexSet} {x : ℕ}

lemma ranges_eq_nil (none : ∀ x, x ∉ s) : s.ranges = [] := by
  refine List.eq_nil_iff_forall_not_mem.mpr fun r mem => none r.first ?_
  exact ⟨r, mem, le_rfl, s.valid.nonempty r mem⟩

lemma front_le (mem : x ∈ s) : s.front ≤ x := by
  obtain ⟨r, here, low, -⟩ := mem
  have valid := s.valid
  rw [front]
  cases ranges : s.ranges with
  | nil => exact Nat.zero_le x
  | cons a rest =>
    rw [ranges] at here valid
    obtain ⟨head, beyond, -⟩ := valid_cons.mp valid
    rcases List.mem_cons.mp here with rfl | later
    · exact low
    · have apart := beyond r later
      show a.first ≤ x
      omega

lemma lt_back (mem : x ∈ s) : x < s.back := by
  obtain ⟨r, here, -, high⟩ := mem
  have valid := s.valid
  rw [back]
  cases ranges : s.ranges using List.reverseRecOn with
  | nil =>
    rw [ranges] at here
    cases here
  | append_singleton rest a =>
    rw [ranges] at here valid
    rw [List.getLast?_append_of_ne_nil _ (List.cons_ne_nil a []), List.getLast?_singleton]
    rcases List.mem_append.mp here with before | last
    · have apart := (valid_append.mp valid).2.2 r before a List.mem_cons_self
      have head := valid.nonempty a (List.mem_append_right rest List.mem_cons_self)
      show x < a.second
      omega
    · rwa [← List.mem_singleton.mp last]

/-- Up to the first index every row keeps its place. -/
lemma rank_of_le_front (le : x ≤ s.front) : rank (· ∈ s) x = x :=
  rank_of_stays fun _ lt mem => absurd (lt.trans_le le) (Nat.not_lt_of_le (front_le mem))

lemma rank_of_back_le (le : s.back ≤ x) : total s.ranges + rank (· ∈ s) x = x :=
  total_rank fun _ mem => (lt_back mem).trans_le le

end IndexSet

/-- Whether the first of the ranges holds an index. -/
def firstHolds (i : ℕ) : List Range → Bool
  | [] => false
  | r :: _ => decide (r.first ≤ i ∧ i < r.second)

/-- `in_range`: whether the rest of the ranges hold an index, and what is left of them. -/
def inRange (it : List Range) (i : ℕ) : Bool × List Range :=
  let it := match it with
    | [] => []
    | r :: rest => if r.second ≤ i then rest else r :: rest
  (firstHolds i it, it)

/-- The loop over the rows that may have been shifted, for so many rows from `i` on. -/
def shiftedRows : ℕ → ℕ → List Range → List Range → ℤ → IndexSet → IndexSet
  | 0, _, _, _, _, indices => indices
  | n + 1, i, del, ins, shift, indices =>
    let (deleted, del) := inRange del i
    let (shift, ins) :=
      if deleted then (shift - 1, ins)
      else
        let (inserted, ins) := inRange ins (i + shift).toNat
        (if inserted then shift + 1 else shift, ins)
    shiftedRows n (i + 1) del ins shift (if shift ≠ 0 then indices.add i else indices)

namespace CollectionChangeSet
variable (cs : CollectionChangeSet)

/-- Every insertion and every deletion is of a move, and there is one. -/
def OnlyMoves : Prop :=
  cs.moves ≠ [] ∧ total cs.insertions.ranges = cs.moves.length ∧
    total cs.deletions.ranges = cs.moves.length

instance : Decidable cs.OnlyMoves :=
  inferInstanceAs (Decidable (_ ≠ _ ∧ _ = _ ∧ _ = _))

/-- No two rows that moved are next to each other, where there are only moves. -/
def Apart : Prop := cs.OnlyMoves → ∀ y ∈ cs.insertions, y + 1 ∉ cs.insertions

def Inserts : Prop := cs.insertions.ranges ≠ []

def Deletes : Prop := cs.deletions.ranges ≠ []

def Modifies : Prop := cs.modificationsNew.ranges ≠ []

end CollectionChangeSet

namespace CollectionChangeBuilder
variable (c : CollectionChangeBuilder)

def empty : Bool :=
  c.deletions.ranges.isEmpty && c.insertions.ranges.isEmpty && c.modifications.ranges.isEmpty &&
    c.modificationsNew.ranges.isEmpty && c.moves.isEmpty

/-- What `before` makes of the changes of a list that is not as it was. -/
def columnInfo : Except AdapterAssertion ColumnInfo :=
  let modifications := c.modifications.removeSet c.insertions
  if c.OnlyMoves then
    let start := min c.insertions.front c.deletions.front
    let stop := max c.insertions.back c.deletions.back
    .ok ⟨.set, shiftedRows (stop - start) start c.deletions.ranges c.insertions.ranges 0
      (modifications.addSet c.deletions)⟩
  else if [c.insertions, modifications, c.deletions].countP (fun s => s.ranges.isEmpty) < 2 then
    .ok { kind := .setAll }
  else if c.insertions.ranges ≠ [] then .ok ⟨.insert, c.insertions⟩
  else if modifications.ranges ≠ [] then .ok ⟨.set, modifications⟩
  else if c.deletions.ranges = [] then .error .noDeletions
  else .ok ⟨.remove, c.deletions⟩

end CollectionChangeBuilder

section Walk
variable {p d s : ℕ → Prop} {i j n q x : ℕ} {it del ins : List Range} {shift : ℤ}
  {indices : IndexSet}

/-- The rest of the ranges of a set, which hold its indexes from `i` on. -/
structure Pending (p : ℕ → Prop) (i : ℕ) (it : List Range) : Prop where
  valid : Valid it
  members : ∀ y, i ≤ y → (p y ↔ Contains it y)
  beyond : ∀ r ∈ it.tail, i ≤ r.first

/-- At the first index nothing of a set is passed. -/
lemma IndexSet.pending {s : IndexSet} (before : i ≤ s.front) : Pending (· ∈ s) i s.ranges := by
  have valid := s.valid
  refine ⟨valid, fun y _ => IndexSet.mem_def, fun r mem => ?_⟩
  rw [IndexSet.front] at before
  cases ranges : s.ranges with
  | nil =>
    rw [ranges] at mem
    cases mem
  | cons a rest =>
    rw [ranges] at mem before valid
    obtain ⟨head, beyond, -⟩ := valid_cons.mp valid
    have apart := beyond r mem
    dsimp only at before
    omega

/-- Ranges that end after an index serve for the next two indexes too. -/
lemma firstHolds_spec (valid : Valid it) (members : ∀ y, i ≤ y → (p y ↔ Contains it y))
    (ends : ∀ r ∈ it, i < r.second) :
    (firstHolds i it = true ↔ p i) ∧ ∀ j, i ≤ j → j ≤ i + 2 → Pending p j it := by
  rw [members i le_rfl]
  cases it with
  | nil =>
    refine ⟨by simp [firstHolds], fun j le _ => ⟨valid, fun y le' => members y (le.trans le'), ?_⟩⟩
    exact List.forall_mem_nil _
  | cons r rest =>
    obtain ⟨head, beyond, -⟩ := valid_cons.mp valid
    have last := ends r List.mem_cons_self
    refine ⟨?_, fun j le le' => ⟨valid, fun y le'' => members y (le.trans le''), fun b mem => ?_⟩⟩
    · rw [firstHolds, decide_eq_true_iff, contains_cons]
      exact (or_iff_left (not_contains_of_lt fun b mem => last.trans (beyond b mem))).symm
    · have apart := beyond b mem
      omega

/-- One range at most is passed. -/
lemma inRange_spec (pending : Pending p i it) :
    ((inRange it i).1 = true ↔ p i) ∧ ∀ j, i ≤ j → j ≤ i + 2 → Pending p j (inRange it i).2 := by
  obtain ⟨valid, members, beyond⟩ := pending
  cases it with
  | nil => exact firstHolds_spec valid members (List.forall_mem_nil _)
  | cons r tail =>
    obtain ⟨head, apart, valid'⟩ := valid_cons.mp valid
    rw [inRange]
    dsimp only
    by_cases passed : r.second ≤ i
    · rw [if_pos passed]
      refine firstHolds_spec valid' (fun y le => (members y le).trans ?_) fun b mem => ?_
      · rw [contains_cons]
        exact or_iff_right fun inside => absurd inside.2 (Nat.not_lt_of_le (passed.trans le))
      · exact (beyond b mem).trans_lt (valid'.nonempty b mem)
    · rw [if_neg passed]
      have last : i < r.second := Nat.lt_of_not_le passed
      exact firstHolds_spec valid members (List.forall_mem_cons.mpr
        ⟨last, fun b mem => (last.trans (apart b mem)).trans (valid'.nonempty b mem)⟩)

/-- The row is neither deleted nor inserted, and has as many rows before it as it had. -/
def InPlace (d s : ℕ → Prop) [DecidablePred d] [DecidablePred s] (x : ℕ) : Prop :=
  ¬ d x ∧ ¬ s x ∧ rank d x = rank s x

/-- How far the walk has come: row `i` of the old list, and the row of the new one that it would be
without the insertions there. -/
structure Walked (d s : ℕ → Prop) [DecidablePred d] [DecidablePred s] (i : ℕ) (del ins : List Range)
    (shift : ℤ) : Prop where
  deleted : Pending d i del
  inserted : Pending s (i + shift).toNat ins
  positive : 0 ≤ i + shift
  level : rank d i = rank s (i + shift).toNat

variable [DecidablePred d] [DecidablePred s]

/-- The walk adds the rows that are not where they were, if no two insertions are
next to each other. -/
lemma mem_shiftedRows (walked : Walked d s i del ins shift) (apart : ∀ y, s y → ¬ s (y + 1))
    (reported : ∀ x, d x → x ∈ indices) : x ∈ shiftedRows n i del ins shift indices ↔
      x ∈ indices ∨ (i ≤ x ∧ x < i + n ∧ ¬ InPlace d s x) := by
  induction n generalizing i del ins shift indices with
  | zero =>
    rw [shiftedRows]
    exact (or_iff_left fun inside => by omega).symm
  | succ n ih =>
    obtain ⟨deleted, inserted, positive, level⟩ := walked
    obtain ⟨found, del'⟩ := inRange_spec deleted
    obtain ⟨found', ins'⟩ := inRange_spec inserted
    -- what is left to show of the walk from the next row on
    have next {del ins : List Range} {shift : ℤ} (walked : Walked d s (i + 1) del ins shift)
        (here : shift = 0 ↔ InPlace d s i ∨ (d i ∧ shift = 0)) :
        x ∈ shiftedRows n (i + 1) del ins shift (if shift ≠ 0 then indices.add i else indices) ↔
          x ∈ indices ∨ (i ≤ x ∧ x < i + (n + 1) ∧ ¬ InPlace d s x) := by
      have kept (x : ℕ) : x ∈ (if shift ≠ 0 then indices.add i else indices) ↔
          x ∈ indices ∨ (x = i ∧ shift ≠ 0) := by
        split_ifs with moved
        · rw [IndexSet.mem_add, or_comm]
          exact or_congr_right (and_iff_left moved).symm
        · exact (or_iff_left fun both => moved both.2).symm
      rw [ih walked fun x gone => (kept x).mpr (.inl (reported x gone)), kept]
      by_cases first : x = i
      · have gone := reported i
        subst first
        have out : ¬ x + 1 ≤ x := Nat.not_succ_le_self x
        have inside : x < x + (n + 1) := by omega
        simp only [out, false_and, or_false, le_rfl, inside, true_and, ne_eq]
        refine ⟨fun old => old.imp_right fun moved place => moved (here.mpr (.inl place)), ?_⟩
        rintro (old | moved)
        · exact .inl old
        · by_cases zero : shift = 0
          · rcases here.mp zero with place | gone'
            · exact absurd place moved
            · exact .inl (gone gone'.1)
          · exact .inr zero
      · have same : i + 1 ≤ x ↔ i ≤ x := by omega
        rw [same, Nat.add_right_comm i 1 n, Nat.add_assoc i n 1]
        exact or_congr_left (or_iff_left fun both => first both.1)
    rw [shiftedRows]
    dsimp only
    by_cases gone : d i
    · rw [if_pos (found.mpr gone)]
      have back : ((i + 1 : ℕ) : ℤ) + (shift - 1) = i + shift := by omega
      refine next ⟨del' (i + 1) (by omega) (by omega), ?_, ?_, ?_⟩ ?_
      · rwa [back]
      · rwa [back]
      · rw [back, rank_succ, if_pos gone, Nat.add_zero, level]
      · refine ⟨fun zero => .inr ⟨gone, zero⟩, ?_⟩
        rintro (place | both)
        · exact absurd gone place.1
        · exact both.2
    · rw [if_neg (mt found.mp gone)]
      obtain ⟨q, at_q⟩ := Int.eq_ofNat_of_zero_le positive
      have here : (i + shift).toNat = q := by omega
      rw [here] at level found' ins' ⊢
      by_cases came : s q
      · -- the row is the one after the insertion
        rw [if_pos (found'.mpr came)]
        have forth : (((i + 1 : ℕ) : ℤ) + (shift + 1)).toNat = q + 2 := by omega
        have after : ¬ s (q + 1) := apart q came
        have level' : rank s (q + 1) = rank d i :=
          by rw [rank_succ, if_pos came, Nat.add_zero, level]
        refine next ⟨del' (i + 1) (by omega) (by omega), ?_, by omega, ?_⟩ ?_
        · rw [forth]
          exact ins' (q + 2) (by omega) le_rfl
        · rw [forth, rank_succ, if_neg gone, rank_succ, if_neg after, level']
        · refine ⟨fun zero => .inl ?_, ?_⟩
          · have same : q + 1 = i := by omega
            rw [same] at after level'
            exact ⟨gone, after, level'.symm⟩
          · rintro (place | both)
            · have same := rank_inj after place.2.1 (level'.trans place.2.2)
              omega
            · exact absurd both.1 gone
      · rw [if_neg (mt found'.mp came)]
        have forth : (((i + 1 : ℕ) : ℤ) + shift).toNat = q + 1 := by omega
        refine next ⟨del' (i + 1) (by omega) (by omega), ?_, by omega, ?_⟩ ?_
        · rw [forth]
          exact ins' (q + 1) (by omega) (by omega)
        · rw [forth, rank_succ, if_neg gone, rank_succ, if_neg came, level]
        · refine ⟨fun zero => .inl ?_, ?_⟩
          · have same : q = i := by omega
            rw [same] at came level
            exact ⟨gone, came, level⟩
          · rintro (place | both)
            · have same := rank_inj came place.2.1 (level.symm.trans place.2.2)
              omega
            · exact absurd both.1 gone

/-- Rows 2 and 4 of five move to the front. Row 3 is not added, though it is row 1
that is there now. -/
example : 3 ∉ shiftedRows 5 0 [⟨2, 3⟩, ⟨4, 5⟩] [⟨0, 2⟩] 0 .empty := by decide

end Walk

section Describe
open CollectionChangeBuilder
variable {α : Type*} {c : CollectionChangeBuilder} {old : List α} {rows : List (Row α)} {x : ℕ}

/-- What one who has the old values can tell of the new ones. Where all entries may have been
replaced that is nothing. -/
def ColumnInfo.Describes (info : ColumnInfo) (old new : List α) : Prop :=
  match info.kind with
  | .none => old = new
  | .set => old.length = new.length ∧ (∀ x ∈ info.indices, x < new.length) ∧
      ∀ x, x ∉ info.indices → old[x]? = new[x]?
  | .insert => Turns (fun _ => False) (· ∈ info.indices) old new
  | .remove => Turns (· ∈ info.indices) (fun _ => False) old new
  | .setAll => True

/-- The kind of change that is told of a list. Several kinds cannot be told at once, but moves
can, as assignments. -/
def CollectionChangeSet.ToldAs (cs : CollectionChangeSet) : Kind → Prop
  | .none => ¬ cs.Inserts ∧ ¬ cs.Deletes ∧ ¬ cs.Modifies
  | .insert => cs.Inserts ∧ ¬ cs.Deletes ∧ ¬ cs.Modifies
  | .remove => ¬ cs.Inserts ∧ cs.Deletes ∧ ¬ cs.Modifies
  | .set => cs.OnlyMoves ∨ ¬ cs.Inserts ∧ ¬ cs.Deletes ∧ cs.Modifies
  | .setAll => ¬ cs.OnlyMoves ∧
      (cs.Inserts ∧ cs.Deletes ∨ cs.Inserts ∧ cs.Modifies ∨ cs.Deletes ∧ cs.Modifies)

/-- What is told of a list is right for the change set it is made of, and leads from the old
values to the new ones. -/
structure Tells {α : Type*} (entry : Option ColumnInfo) (cs : CollectionChangeSet)
    (old new : List α) : Prop where
  /-- Nothing is told exactly if nothing was reported, and then the list is as it was. -/
  quiet : entry = none ↔ cs.ToldAs .none
  unchanged : entry = none → old = new
  kind : ∀ info ∈ entry, ∀ k, info.kind = k ↔ cs.ToldAs k
  describes : ∀ info ∈ entry, cs.Apart → info.Describes old new
  /-- No row is said to be assigned to but those that were, or are not where they were. -/
  rows : ∀ info ∈ entry, info.kind = .set → cs.Apart → ∀ x, x ∈ info.indices ↔
    x ∈ cs.modificationsNew ∨ ¬ InPlace (· ∈ cs.deletions) (· ∈ cs.insertions) x

namespace CollectionChangeSet
variable {cs : CollectionChangeSet} {k k' : Kind}

/-- Moves are insertions and deletions. -/
lemma OnlyMoves.both (moved : cs.OnlyMoves) : cs.Inserts ∧ cs.Deletes := by
  obtain ⟨some, inserted, deleted⟩ := moved
  have positive := List.length_pos_iff.mpr some
  constructor
  · intro none
    rw [none, total] at inserted
    omega
  · intro none
    rw [none, total] at deleted
    omega

/-- A change set is told in one way. -/
lemma ToldAs.unique (told : cs.ToldAs k) (told' : cs.ToldAs k') : k = k' := by
  have moves := @OnlyMoves.both cs
  cases k <;> cases k' <;> first | rfl | (simp only [ToldAs] at told told'; tauto)

end CollectionChangeSet

/-- Rows that only move are reported if they were modified or are not where they were. -/
lemma mem_movedRows (moved : c.OnlyMoves) (apart : ∀ y ∈ c.insertions, y + 1 ∉ c.insertions)
    {modifications : IndexSet} :
    x ∈ shiftedRows
      (max c.insertions.back c.deletions.back - min c.insertions.front c.deletions.front)
      (min c.insertions.front c.deletions.front) c.deletions.ranges c.insertions.ranges 0
      (modifications.addSet c.deletions) ↔
      x ∈ modifications ∨ ¬ InPlace (· ∈ c.deletions) (· ∈ c.insertions) x := by
  have walked : Walked (· ∈ c.deletions) (· ∈ c.insertions)
      (min c.insertions.front c.deletions.front)
      c.deletions.ranges c.insertions.ranges 0 := by
    have start : (((min c.insertions.front c.deletions.front : ℕ) : ℤ) + 0).toNat =
        min c.insertions.front c.deletions.front := by omega
    refine ⟨IndexSet.pending (min_le_right _ _), ?_, by omega, ?_⟩
    · rw [start]
      exact IndexSet.pending (min_le_left _ _)
    · rw [start, IndexSet.rank_of_le_front (min_le_left _ _),
        IndexSet.rank_of_le_front (min_le_right _ _)]
  rw [mem_shiftedRows walked apart fun x gone => IndexSet.mem_addSet.mpr (.inl gone),
    IndexSet.mem_addSet]
  constructor
  · rintro ((gone | modified) | ⟨-, -, moved⟩)
    · exact .inr fun place => place.1 gone
    · exact .inl modified
    · exact .inr moved
  · rintro (modified | displaced)
    · exact .inl (.inr modified)
    · by_cases gone : x ∈ c.deletions
      · exact .inl (.inl gone)
      · -- outside of the walk every row is in place
        refine .inr ⟨?_, ?_, displaced⟩
        · by_contra before
          refine displaced ⟨gone, fun came => before ?_, ?_⟩
          · exact (min_le_left _ _).trans (IndexSet.front_le came)
          · rw [IndexSet.rank_of_le_front (by omega), IndexSet.rank_of_le_front (by omega)]
        · by_contra after
          have past : c.insertions.back ≤ x ∧ c.deletions.back ≤ x := by omega
          have inserted := IndexSet.rank_of_back_le past.1
          have deleted := IndexSet.rank_of_back_le past.2
          refine displaced ⟨gone, fun came => absurd (IndexSet.lt_back came)
            (Nat.not_lt_of_le past.1), ?_⟩
          have same := moved.2.1.trans moved.2.2.symm
          omega

namespace Follows

/-- Without a modification the value is the one the row came with. -/
lemma unmodified (follows : Follows c old rows) (plain : x ∉ c.modifications) :
    (rows.map Row.origin)[x]? = (rows.map Row.value)[x]? := by
  rw [List.getElem?_map, List.getElem?_map]
  cases here : rows[x]? with
  | none => rfl
  | some row =>
    have untouched : row.touched = false := by
      by_contra touched
      exact plain ((follows.marked x).mpr ⟨row, here, Bool.eq_true_of_not_eq_false touched⟩)
    rw [Option.map_some, Option.map_some, follows.kept x row here untouched]

/-- If only rows that came in are modified, the change set turns the old values
into the new ones. -/
lemma turns_values (follows : Follows c old rows)
    (fresh : ∀ x ∈ c.modifications, x ∈ c.insertions) :
    Turns (· ∈ c.deletions) (· ∈ c.insertions) old (rows.map Row.value) := by
  obtain ⟨kept, deleted, inserted⟩ := follows.records.turns
  rw [List.length_map] at inserted
  refine ⟨kept.trans (dropAt_eq (by simp) fun x stays => ?_), deleted, by rwa [List.length_map]⟩
  exact follows.unmodified fun modified => stays (fresh x modified)

/-- A row that is in place and was not modified has the old value. -/
lemma same_value (follows : Follows c old rows) (plain : ¬ (x ∈ c.modifications ∧ x ∉ c.insertions))
    (place : InPlace (· ∈ c.deletions) (· ∈ c.insertions) x) :
      old[x]? = (rows.map Row.value)[x]? := by
  rw [follows.records.turns.same place.1 place.2.1 place.2.2]
  exact follows.unmodified fun modified => plain ⟨modified, place.2.1⟩

lemma modified_lt (follows : Follows c old rows) (modified : x ∈ c.modifications) :
    x < rows.length := by
  obtain ⟨row, here, -⟩ := (follows.marked x).mp modified
  exact (List.getElem?_eq_some_iff.mp here).1

/-- As many rows came in as went. -/
lemma length_eq (follows : Follows c old rows)
    (same : total c.insertions.ranges = total c.deletions.ranges) : old.length = rows.length := by
  have size := follows.records.old_size
  rw [List.length_map] at size
  omega

/-- After the end there are no rows to be moved. -/
lemma inPlace_of_le (follows : Follows c old rows)
    (same : total c.insertions.ranges = total c.deletions.ranges) (le : rows.length ≤ x) :
    InPlace (· ∈ c.deletions) (· ∈ c.insertions) x := by
  have size := follows.length_eq same
  have inside := follows.records.turns.inserted
  rw [List.length_map] at inside
  have gone (y : ℕ) (mem : y ∈ c.deletions) : y < x := by
    have lt := follows.records.turns.deleted y mem
    omega
  have came (y : ℕ) (mem : y ∈ c.insertions) : y < x := (inside y mem).trans_le le
  refine ⟨fun mem => Nat.lt_irrefl x (gone x mem), fun mem => Nat.lt_irrefl x (came x mem), ?_⟩
  have deleted := IndexSet.total_rank gone
  have inserted := IndexSet.total_rank came
  omega

/-- Less than two of three sets are empty. -/
lemma countP_isEmpty {s t u : IndexSet} : [s, t, u].countP (fun s => s.ranges.isEmpty) < 2 ↔
    s.ranges ≠ [] ∧ t.ranges ≠ [] ∨ s.ranges ≠ [] ∧ u.ranges ≠ [] ∨ t.ranges ≠ [] ∧
    u.ranges ≠ [] := by
  have flags : ∀ a b c : Bool, [a, b, c].countP id < 2 ↔
      a = false ∧ b = false ∨ a = false ∧ c = false ∨ b = false ∧ c = false := by decide
  have empties := flags s.ranges.isEmpty t.ranges.isEmpty u.ranges.isEmpty
  simp only [List.isEmpty_eq_false_iff] at empties
  exact empties

/-- Of a list with changes something is said. -/
lemma columnInfo_ok (changed : ¬ c.finalize.ToldAs .none) : ∃ info, c.columnInfo = .ok info := by
  rw [CollectionChangeBuilder.columnInfo]
  dsimp only
  split_ifs with moved several inserts modifies deletes
  · exact ⟨_, rfl⟩
  · exact ⟨_, rfl⟩
  · exact ⟨_, rfl⟩
  · exact ⟨_, rfl⟩
  · exact absurd ⟨inserts, not_not_intro deletes, modifies⟩ changed
  · exact ⟨_, rfl⟩

/-- The kind of change is the one there is, and the rows that came in or went are those that did. -/
lemma toldAs_columnInfo {info : ColumnInfo} (ok : c.columnInfo = .ok info) :
    c.finalize.ToldAs info.kind ∧ (info.kind = .insert → info.indices = c.insertions) ∧
      (info.kind = .remove → info.indices = c.deletions) := by
  rw [CollectionChangeBuilder.columnInfo] at ok
  dsimp only at ok
  split_ifs at ok with moved several inserts modifies deletes
  · cases ok
    exact ⟨.inl moved, fun kind => Kind.noConfusion kind, fun kind => Kind.noConfusion kind⟩
  · cases ok
    refine ⟨⟨moved, ?_⟩, fun kind => Kind.noConfusion kind, fun kind => Kind.noConfusion kind⟩
    rcases countP_isEmpty.mp several with both | both | both
    · exact .inr (.inl both)
    · exact .inl both
    · exact .inr (.inr both.symm)
  · cases ok
    refine ⟨⟨inserts, fun deletes => ?_, fun modifies => ?_⟩, fun _ => rfl,
      fun kind => Kind.noConfusion kind⟩
    · exact several (countP_isEmpty.mpr (.inr (.inl ⟨inserts, deletes⟩)))
    · exact several (countP_isEmpty.mpr (.inl ⟨inserts, modifies⟩))
  · cases ok
    refine ⟨.inr ⟨inserts, fun deletes => ?_, modifies⟩, fun kind => Kind.noConfusion kind,
      fun kind => Kind.noConfusion kind⟩
    exact several (countP_isEmpty.mpr (.inr (.inr ⟨modifies, deletes⟩)))
  · cases ok
    exact ⟨⟨inserts, deletes, modifies⟩, fun kind => Kind.noConfusion kind, fun _ => rfl⟩

/-- The rows said to be assigned to were, or are not where they were. -/
lemma mem_columnInfo {info : ColumnInfo} (ok : c.columnInfo = .ok info) (kind : info.kind = .set)
    (apart : c.Apart) : x ∈ info.indices ↔
      x ∈ c.finalize.modificationsNew ∨ ¬ InPlace (· ∈ c.deletions) (· ∈ c.insertions) x := by
  have told := (toldAs_columnInfo ok).1
  rw [kind] at told
  rw [CollectionChangeBuilder.columnInfo] at ok
  dsimp only at ok
  split_ifs at ok with moved several inserts modifies
  · cases ok
    exact mem_movedRows moved (apart moved)
  · cases ok
    cases kind
  · cases ok
    cases kind
  · -- no row went or came in, so all are in place
    cases ok
    obtain ⟨inserted, deleted, -⟩ := told.resolve_left moved
    refine (or_iff_left (not_not_intro ⟨?_, ?_, ?_⟩)).symm
    · exact IndexSet.notMem_of_ranges (not_not.mp deleted)
    · exact IndexSet.notMem_of_ranges (not_not.mp inserted)
    · exact (IndexSet.rank_of_ranges (not_not.mp deleted)).trans
        (IndexSet.rank_of_ranges (not_not.mp inserted)).symm
  · cases ok
    cases kind

/-- If no row was modified that was there before, only rows that came in were assigned to. -/
lemma fresh_of_not_modifies (plain : ¬ c.finalize.Modifies) :
    ∀ x ∈ c.modifications, x ∈ c.insertions := by
  intro x modified
  by_contra stays
  exact IndexSet.notMem_of_ranges (not_not.mp plain) (IndexSet.mem_removeSet.mpr ⟨modified, stays⟩)

/-- A list without changes is as it was. -/
lemma unchanged (follows : Follows c old rows) (quiet : c.finalize.ToldAs .none) :
    old = rows.map Row.value := by
  obtain ⟨inserted, deleted, plain⟩ := quiet
  have stays (x : ℕ) : x ∉ c.deletions := IndexSet.notMem_of_ranges (not_not.mp deleted)
  have stays' (x : ℕ) : x ∉ c.insertions := IndexSet.notMem_of_ranges (not_not.mp inserted)
  have kept := (follows.turns_values (fresh_of_not_modifies plain)).kept
  rwa [dropAt_stays fun x _ => stays x, dropAt_stays fun x _ => stays' x] at kept

/-- The builder is empty exactly if the change set has no changes. -/
lemma empty_iff (follows : Follows c old rows) (unset : c.modificationsNew.ranges = []) :
    c.empty = true ↔ c.finalize.ToldAs .none := by
  simp only [CollectionChangeBuilder.empty, Bool.and_eq_true, List.isEmpty_iff]
  constructor
  · rintro ⟨⟨⟨⟨deleted, inserted⟩, modified⟩, -⟩, -⟩
    refine ⟨not_not_intro inserted, not_not_intro deleted, not_not_intro ?_⟩
    refine IndexSet.ranges_eq_nil fun x mem => ?_
    exact IndexSet.notMem_of_ranges modified (mem_modificationsNew.mp mem).1
  · rintro ⟨inserted, deleted, plain⟩
    have inserted' := not_not.mp inserted
    have deleted' := not_not.mp deleted
    refine ⟨⟨⟨⟨deleted', inserted'⟩, IndexSet.ranges_eq_nil fun x mem => ?_⟩, unset⟩, ?_⟩
    · exact IndexSet.notMem_of_ranges inserted' (fresh_of_not_modifies plain x mem)
    · refine List.eq_nil_iff_forall_not_mem.mpr fun m mem => ?_
      exact IndexSet.notMem_of_ranges deleted' (follows.records.moved.deleted m mem)

/-- What is said of a list is so. -/
lemma described {info : ColumnInfo} (follows : Follows c old rows) (ok : c.columnInfo = .ok info)
    (apart : c.Apart) : info.Describes old (rows.map Row.value) := by
  have bare {s : IndexSet} (none : ¬ s.ranges ≠ []) (x : ℕ) : x ∉ s :=
    IndexSet.notMem_of_ranges (not_not.mp none)
  obtain ⟨told, came, went⟩ := toldAs_columnInfo ok
  rw [ColumnInfo.Describes]
  cases kind : info.kind with
  | none =>
    rw [kind] at told
    exact follows.unchanged told
  | set =>
    have same : total c.insertions.ranges = total c.deletions.ranges := by
      rw [kind] at told
      rcases told with moved | ⟨inserted, deleted, -⟩
      · exact moved.2.1.trans moved.2.2.symm
      · have inserted' : c.insertions.ranges = [] := not_not.mp inserted
        have deleted' : c.deletions.ranges = [] := not_not.mp deleted
        rw [inserted', deleted']
    refine ⟨?_, fun x mem => ?_, fun x out => ?_⟩
    · rw [List.length_map]
      exact follows.length_eq same
    · rw [mem_columnInfo ok kind apart, mem_modificationsNew] at mem
      rw [List.length_map]
      rcases mem with modified | displaced
      · exact follows.modified_lt modified.1
      · exact Nat.lt_of_not_le fun le => displaced (follows.inPlace_of_le same le)
    · rw [mem_columnInfo ok kind apart, mem_modificationsNew, not_or, not_not] at out
      exact follows.same_value out.1 out.2
  | insert =>
    rw [kind] at told
    dsimp only
    rw [came kind]
    exact (follows.turns_values (fresh_of_not_modifies told.2.2)).congr
      (fun x => iff_of_false not_false (bare told.2.1 x)) fun _ => Iff.rfl
  | remove =>
    rw [kind] at told
    dsimp only
    rw [went kind]
    exact (follows.turns_values (fresh_of_not_modifies told.2.2)).congr (fun _ => Iff.rfl)
      fun x => iff_of_false not_false (bare told.1 x)
  | setAll => trivial

end Follows

end Describe

section Unset
variable {c c' : CollectionChangeBuilder} {index count f t : ℕ}

lemma insert_modificationsNew {trackMoves : Bool} (ok : c.insert index count trackMoves = .ok c') :
    c'.modificationsNew = c.modificationsNew := by
  rw [CollectionChangeBuilder.insert] at ok
  split_ifs at ok
  · cases ok
    rfl
  · cases ok
    rfl

lemma move_modificationsNew (ok : c.move f t = .ok c') :
    c'.modificationsNew = c.modificationsNew := by
  rw [CollectionChangeBuilder.move] at ok
  split_ifs at ok
  obtain ⟨⟨moves, insertions, updated⟩, -, ok⟩ := ok_bind_iff.mp ok
  cases updated with
  | true =>
    cases ok
    rfl
  | false =>
    dsimp only at ok
    rw [if_neg Bool.false_ne_true] at ok
    split at ok
    · cases ok
      rfl
    · cases ok
      rfl

/-- Only at the end the rows modified are written down by where they are. -/
lemma handle_modificationsNew {i : Instruction} (ok : TransactLogObserver.handle c i = .ok c') :
    c'.modificationsNew = c.modificationsNew := by
  cases i with
  | listInsert _ => exact insert_modificationsNew ok
  | listMove _ _ => exact move_modificationsNew ok
  | listSwap m n =>
    rw [TransactLogObserver.handle] at ok
    dsimp only at ok
    generalize (if m > n then (n, m) else (m, n)) = rows at ok
    obtain ⟨c₁, first, ok⟩ := ok_bind_iff.mp ok
    split_ifs at ok
    · exact (move_modificationsNew ok).trans (move_modificationsNew first)
    · cases ok
      exact move_modificationsNew first
  | listSet _ | listErase _ | listClear _ =>
    cases ok
    rfl
  | _ =>
    cases ok
    rfl

lemma execM_modificationsNew {log : List Instruction}
    (run : execM TransactLogObserver.handle c log = .ok c') :
    c'.modificationsNew = c.modificationsNew :=
  execM_keeps (I := fun b : CollectionChangeBuilder => b.modificationsNew = c.modificationsNew)
    (Q := fun _ _ => True) (fun _ _ _ same _ ok => (handle_modificationsNew ok).trans same) rfl
    (.of_invariant (I := fun _ => True) (fun _ _ _ _ _ _ =>
      trivial) trivial fun _ _ _ _ => trivial) run

lemma cleaned_modificationsNew (n : ℕ) :
    (CollectionChangeBuilder.cleanUpStaleMoves^[n] c).modificationsNew = c.modificationsNew := by
  induction n with
  | zero => rfl
  | succ n ih =>
    rw [Function.iterate_succ_apply']
    exact ih

end Unset

end SpecialtyMap.Notify
