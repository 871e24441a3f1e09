import SpecialtyMap.Notify.IndexWalk
import SpecialtyMap.Position.Edit

/-!
# Building a change set

`CollectionChangeBuilder` follows the edits of a list one by one and keeps what has become of the
list since it was last reported: the old rows that are gone, the new rows that came in, the rows
that moved and the rows that were modified. `Records` is what it must keep: deleting and inserting
what it says turns the old list into the new one, and what it says has moved is the same row on both
sides.

Each operation keeps the record because the edit is a difference of its own, put behind the one
recorded (`Turns.compose`), and moves only carry along where the rows they are about are now.
-/

namespace SpecialtyMap.Notify
open SpecialtyMap.Position

/-- `CollectionChangeSet::Move`. -/
structure Move where
  fromRow : ℕ
  toRow : ℕ
deriving DecidableEq

/-- `CollectionChangeSet`. A column without a set in the map has the empty one here. -/
structure CollectionChangeSet where
  deletions : IndexSet := .empty
  insertions : IndexSet := .empty
  modifications : IndexSet := .empty
  modificationsNew : IndexSet := .empty
  moves : List Move := []
  columns : ℤ → IndexSet := fun _ => .empty

/-- The assertions of the builder. -/
inductive Assertion where
  | countNotZero
  | fromNotTo
  | notUpdatedExistingMove
deriving DecidableEq

/-- A change set in the making, by a builder that tracks columns. -/
structure CollectionChangeBuilder extends CollectionChangeSet

namespace CollectionChangeBuilder

section Operations
variable (c : CollectionChangeBuilder)

def forEachCol (f : IndexSet → IndexSet) : CollectionChangeBuilder :=
  { c with modifications := f c.modifications, columns := fun col => f (c.columns col) }

/-- `modify`, with no column for `npos`. -/
def modify (index : ℕ) (col : Option ℤ) : CollectionChangeBuilder :=
  let c := { c with modifications := c.modifications.add index }
  match col with
  | none => c
  | some col => { c with columns := Function.update c.columns col ((c.columns col).add index) }

def insert (index count : ℕ) (trackMoves : Bool := true) :
    Except Assertion CollectionChangeBuilder :=
  if positive : 0 < count then
    let c := c.forEachCol (·.shiftForInsertAt index count positive)
    if trackMoves then
      .ok { c with
        insertions := c.insertions.insertAt index count positive
        moves := c.moves.map fun m =>
          { m with toRow := if m.toRow ≥ index then m.toRow + count else m.toRow } }
    else .ok c
  else .error .countNotZero

def erase (index : ℕ) : CollectionChangeBuilder :=
  let c := c.forEachCol (·.eraseAt index)
  let (unshifted, insertions) := c.insertions.eraseOrUnshift index
  { c with
    deletions := match unshifted with
      | none => c.deletions
      | some unshifted => (c.deletions.addShifted unshifted).2
    insertions
    moves := (c.moves.filter fun m => m.toRow ≠ index).map fun m =>
      { m with toRow := if m.toRow > index then m.toRow - 1 else m.toRow } }

def clear (oldSize : ℕ) : CollectionChangeBuilder :=
  { c with
    deletions := .set (oldSize + total c.deletions.ranges - total c.insertions.ranges)
    insertions := .empty
    modifications := .empty
    moves := []
    columns := fun _ => .empty }

/-- Where a row is after the row at `f` has moved to `t`. -/
def relocate (f t row : ℕ) : ℕ :=
  if row = f then t
  else if row ≥ t ∧ row < f then row + 1
  else if row ≤ t ∧ row > f then row - 1
  else row

/-- The loop of `move` over the moves: one that ended at `f` is made to end at `t`. -/
def moveRows (f t : ℕ) : List Move → IndexSet → Bool →
    Except Assertion (List Move × IndexSet × Bool)
  | [], insertions, updated => .ok ([], insertions, updated)
  | m :: moves, insertions, updated =>
    if m.toRow ≠ f then do
      let (moves, rest) ← moveRows f t moves insertions updated
      return ({ m with toRow := relocate f t m.toRow } :: moves, rest)
    else if updated then .error .notUpdatedExistingMove
    else do
      let (moves, rest) ← moveRows f t moves ((insertions.eraseAt f).insertAt t 1 Nat.one_pos) true
      return ({ m with toRow := t } :: moves, rest)

/-- What `move` does to a set of modified rows. -/
def moveCol (f t : ℕ) (col : IndexSet) : IndexSet :=
  if col.contains f then (col.eraseAt f).insertAt t 1 Nat.one_pos
  else (col.eraseAt f).shiftForInsertAt t 1 Nat.one_pos

def move (f t : ℕ) : Except Assertion CollectionChangeBuilder :=
  if f = t then .error .fromNotTo
  else do
    let (moves, insertions, updated) ← moveRows f t c.moves c.insertions false
    if updated then
      return forEachCol { c with moves, insertions } (moveCol f t)
    else
      let (shifted, insertions) := insertions.eraseOrUnshift f
      let insertions := insertions.insertAt t 1 Nat.one_pos
      match shifted with
      | none => return forEachCol { c with moves, insertions } (moveCol f t)
      | some shifted =>
        let (shifted, deletions) := c.deletions.addShifted shifted
        let moves := moves ++ [{ fromRow := shifted, toRow := t }]
        return forEachCol { c with moves, deletions, insertions } (moveCol f t)

/-- The loop of `clean_up_stale_moves`: a move that has become no move goes, with its insertion and
its deletion, before the next one is looked at. -/
def cleanUp : List Move → IndexSet → IndexSet → List Move × IndexSet × IndexSet
  | [], deletions, insertions => ([], deletions, insertions)
  | m :: moves, deletions, insertions =>
    if m.fromRow - deletions.count 0 m.fromRow ≠ m.toRow - insertions.count 0 m.toRow then
      let (moves, rest) := cleanUp moves deletions insertions
      (m :: moves, rest)
    else cleanUp moves (deletions.remove m.fromRow 1 Nat.one_pos)
      (insertions.remove m.toRow 1 Nat.one_pos)

def cleanUpStaleMoves : CollectionChangeBuilder :=
  let (moves, deletions, insertions) := cleanUp c.moves c.deletions c.insertions
  { c with moves, deletions, insertions }

def finalize : CollectionChangeSet :=
  let modificationsInOld := (c.modifications.eraseSet c.insertions).shiftForInsertSet c.deletions
  { c.toCollectionChangeSet with
    modifications := modificationsInOld
    modificationsNew := c.modifications.removeSet c.insertions }

end Operations

/-- What moves say of two lists: the row of each has left the old list and come into the new one,
and no two are about the same row. -/
structure Moved {α : Type*} (d i : ℕ → Prop) (moves : List Move) (old new : List α) : Prop where
  deleted : ∀ m ∈ moves, d m.fromRow
  inserted : ∀ m ∈ moves, i m.toRow
  same : ∀ m ∈ moves, old[m.fromRow]? = new[m.toRow]?
  sources : moves.Pairwise fun a b => a.fromRow ≠ b.fromRow
  targets : moves.Pairwise fun a b => a.toRow ≠ b.toRow

/-- The change set turns the old list into the new one, and its moves are moves. -/
structure Records {α : Type*} (c : CollectionChangeBuilder) (old new : List α) : Prop where
  turns : Turns (· ∈ c.deletions) (· ∈ c.insertions) old new
  moved : Moved (· ∈ c.deletions) (· ∈ c.insertions) c.moves old new

/-- No two moves end at one row. -/
def Targets (moves : List Move) : Prop := moves.Pairwise fun a b => a.toRow ≠ b.toRow

lemma Targets.retarget {moves : List Move} (targets : Targets moves) (g : ℕ → ℕ)
    (inj : ∀ a ∈ moves, ∀ b ∈ moves, g a.toRow = g b.toRow → a.toRow = b.toRow) :
    Targets (moves.map fun m => { m with toRow := g m.toRow }) := by
  refine List.pairwise_map.mpr (targets.imp_of_mem fun mem mem' ne same => ?_)
  exact ne (inj _ mem _ mem' same)

namespace Moved
variable {α : Type*} {d i d' i' : ℕ → Prop} {moves : List Move} {m : Move} {old mid new : List α}

/-- Moves keep their sources and have their targets carried along. -/
lemma retarget (g : ℕ → ℕ) (moved : Moved d i moves old mid) (deletions : ∀ x, d x → d' x)
    (insertions : ∀ m ∈ moves, i m.toRow → i' (g m.toRow))
    (row : ∀ m ∈ moves, new[g m.toRow]? = mid[m.toRow]?)
    (inj : ∀ a ∈ moves, ∀ b ∈ moves, g a.toRow = g b.toRow → a.toRow = b.toRow) :
    Moved d' i' (moves.map fun m => { m with toRow := g m.toRow }) old new := by
  have each {P : Move → Prop} (all : ∀ m ∈ moves, P { m with toRow := g m.toRow }) :
      ∀ m ∈ moves.map fun m => { m with toRow := g m.toRow }, P m := List.forall_mem_map.mpr all
  constructor
  · exact each fun m mem => deletions m.fromRow (moved.deleted m mem)
  · exact each fun m mem => insertions m mem (moved.inserted m mem)
  · exact each fun m mem => (moved.same m mem).trans (row m mem).symm
  · exact List.pairwise_map.mpr moved.sources
  · exact Targets.retarget moved.targets g inj

lemma filter (keep : Move → Bool) (moved : Moved d i moves old new) :
    Moved d i (moves.filter keep) old new := by
  have each {P : Move → Prop} (all : ∀ m ∈ moves, P m) : ∀ m ∈ moves.filter keep, P m :=
    fun m mem => all m (List.mem_of_mem_filter mem)
  exact ⟨each moved.deleted, each moved.inserted, each moved.same, moved.sources.filter keep,
    moved.targets.filter keep⟩

/-- One more move, of a row that no other is about. -/
lemma push (moved : Moved d i moves old new) (deleted : d m.fromRow) (inserted : i m.toRow)
    (same : old[m.fromRow]? = new[m.toRow]?) (source : ∀ a ∈ moves, a.fromRow ≠ m.fromRow)
    (target : ∀ a ∈ moves, a.toRow ≠ m.toRow) : Moved d i (moves ++ [m]) old new := by
  have each {P : Move → Prop} (all : ∀ a ∈ moves, P a) (last : P m) : ∀ a ∈ moves ++ [m], P a := by
    intro a mem
    rcases List.mem_append.mp mem with before | here
    · exact all a before
    · rwa [List.mem_singleton.mp here]
  have fresh {R : Move → Move → Prop} (pairs : moves.Pairwise R) (last : ∀ a ∈ moves, R a m) :
      (moves ++ [m]).Pairwise R := by
    refine List.pairwise_append.mpr ⟨pairs, List.pairwise_singleton R m, fun a mem b here => ?_⟩
    rw [List.mem_singleton.mp here]
    exact last a mem
  exact ⟨each moved.deleted deleted, each moved.inserted inserted, each moved.same same,
    fresh moved.sources source, fresh moved.targets target⟩

end Moved

section Insert
variable {α : Type*} {c : CollectionChangeBuilder} {old mid block : List α} {index : ℕ}

lemma insert_eq (positive : 0 < block.length) : c.insert index block.length = .ok
    { c.forEachCol (·.shiftForInsertAt index block.length positive) with
      insertions := c.insertions.insertAt index block.length positive
      moves := c.moves.map fun m =>
        { m with toRow := if m.toRow ≥ index then m.toRow + block.length else m.toRow } } := by
  rw [insert, dif_pos positive, if_pos rfl]
  rfl

/-- What `insert` leaves follows a list that gets a block. -/
lemma Records.insert (recs : Records c old mid) (le : index ≤ mid.length)
    (positive : 0 < block.length) :
    ∃ c', c.insert index block.length = .ok c' ∧
      c'.modifications = c.modifications.shiftForInsertAt index block.length positive ∧
      Records c' old (insertBlock index block mid) := by
  refine ⟨_, insert_eq positive, rfl, ?_, ?_⟩
  · refine recs.turns.compose (Turns.insertBlock le) (fun x => ?_) (fun y => ?_)
    · exact (or_iff_left takenAt_nothing).symm
    · rw [takenAt_of_nothing, rank_block, IndexSet.mem_insertAt]
      rcases Nat.lt_or_ge y index with low | high
      · simp [low, low.le, Nat.not_le_of_lt low,
          Nat.not_le_of_lt (low.trans_le (Nat.le_add_right _ _))]
      · rcases Nat.lt_or_ge y (index + block.length) with inside | after
        · simp [high, inside]
        · have past : ¬ y ≤ index := by omega
          have shifted : max index (y - block.length) = y - block.length := by omega
          simp [Nat.not_lt_of_ge high, Nat.not_lt_of_ge after, after, past, shifted]
  · refine recs.moved.retarget (fun y => if y ≥ index then y + block.length else y)
      (fun _ gone => gone)
      ?_ ?_ ?_
    · intro m _ mem
      rw [IndexSet.mem_insertAt]
      split_ifs with after
      · exact .inr (.inr ⟨by omega, by rwa [Nat.add_sub_cancel]⟩)
      · exact .inr (.inl ⟨by omega, mem⟩)
    · intro m mem
      rw [getElem?_insertBlock le]
      by_cases after : m.toRow ≥ index
      · have past : ¬ m.toRow + block.length < index := by omega
        have outside : ¬ m.toRow + block.length < index + block.length := by omega
        rw [if_pos after, if_neg past, if_neg outside, Nat.add_sub_cancel]
      · rw [if_neg after, if_pos (Nat.lt_of_not_le after)]
    · intro a _ b _ same
      split_ifs at same <;> omega

lemma insert_targets (targets : Targets c.moves) :
    ∃ c', c.insert index 1 = .ok c' ∧ Targets c'.moves := by
  refine ⟨_, dif_pos Nat.one_pos, targets.retarget (fun y => if y ≥ index then y + 1 else y) ?_⟩
  intro a _ b _ same
  split_ifs at same <;> omega

end Insert

section Erase
variable {α : Type*} {c : CollectionChangeBuilder} {old mid : List α} {index x y : ℕ}

lemma mem_erase_insertions : x ∈ (c.erase index).insertions ↔ x ∈ c.insertions.eraseAt index :=
  IndexSet.mem_eraseOrUnshift

/-- A row that was inserted goes without a trace; any other is deleted where it
was in the old list. -/
lemma mem_erase_deletions : x ∈ (c.erase index).deletions ↔ x ∈ c.deletions ∨
    (index ∉ c.insertions ∧ rank (· ∈ c.deletions) x = rank (· ∈ c.insertions) index) := by
  have unshifted := @IndexSet.eraseOrUnshift_fst index c.insertions
  rw [erase]
  show x ∈ (match (c.insertions.eraseOrUnshift index).1 with
    | none => c.deletions
    | some unshifted => (c.deletions.addShifted unshifted).2) ↔ _
  rw [unshifted]
  by_cases inserted : index ∈ c.insertions
  · simp [inserted]
  · simp only [inserted, if_false, not_false_iff, true_and]
    rw [IndexSet.mem_addShifted, IndexSet.eq_shift_iff]
    tauto

lemma Records.erase (recs : Records c old mid) (lt : index < mid.length) :
    Records (c.erase index) old (mid.eraseIdx index) := by
  constructor
  · refine recs.turns.compose (Turns.eraseIdx lt) (fun x => ?_) (fun y => ?_)
    · rw [mem_erase_deletions, takenAt_single, eq_comm]
    · rw [mem_erase_insertions, IndexSet.mem_eraseAt, takenAt_of_single, rank_nothing, false_or]
  · refine (recs.moved.filter fun m => m.toRow ≠ index).retarget
      (fun y => if y > index then y - 1 else y)
      (fun x gone => mem_erase_deletions.mpr (.inl gone)) ?_ ?_ ?_
    all_goals simp only [List.mem_filter, decide_eq_true_eq]
    · rintro m ⟨-, ne⟩ mem
      rw [mem_erase_insertions, IndexSet.mem_eraseAt]
      split_ifs with after
      · exact .inr ⟨by omega, by rwa [Nat.sub_add_cancel (by omega)]⟩
      · exact .inl ⟨by omega, mem⟩
    · rintro m ⟨-, ne⟩
      by_cases after : m.toRow > index
      · have past : ¬ m.toRow - 1 < index := by omega
        rw [if_pos after, List.getElem?_eraseIdx, if_neg past, Nat.sub_add_cancel (by omega)]
      · have before : m.toRow < index := by omega
        rw [if_neg after, List.getElem?_eraseIdx, if_pos before]
    · rintro a ⟨-, ne⟩ b ⟨-, ne'⟩ same
      split_ifs at same <;> omega

lemma erase_targets (targets : Targets c.moves) : Targets (c.erase index).moves := by
  have kept : Targets (c.moves.filter fun m => m.toRow ≠ index) := targets.filter _
  refine kept.retarget (fun y => if y > index then y - 1 else y) ?_
  simp only [List.mem_filter, decide_eq_true_eq]
  rintro a ⟨-, ne⟩ b ⟨-, ne'⟩ same
  split_ifs at same <;> omega

end Erase

section Clear
variable {α : Type*} {c : CollectionChangeBuilder} {old mid : List α}

/-- The size of the list that was last reported, from the size now. -/
lemma Records.old_size (recs : Records c old mid) :
    mid.length + total c.deletions.ranges - total c.insertions.ranges = old.length := by
  have deleted := IndexSet.total_rank recs.turns.deleted
  have inserted := IndexSet.total_rank recs.turns.inserted
  have kept := recs.turns.rank_length
  omega

lemma Records.clear (recs : Records c old mid) :
    Records (c.clear mid.length) old ([] : List α) := by
  have size : (c.clear mid.length).deletions = .set old.length := by
    rw [← recs.old_size]
    rfl
  refine ⟨⟨?_, ?_, nofun⟩, ⟨nofun, nofun, nofun, .nil, .nil⟩⟩
  · exact dropAt_gone fun x lt => by rwa [size, IndexSet.mem_set]
  · intro x mem
    rwa [size, IndexSet.mem_set] at mem

end Clear

section Move
variable {α : Type*} {c : CollectionChangeBuilder} {old mid : List α} {f t x y : ℕ}

/-- The row that moves ends at `t`, and any other where its rank without `f` is
its rank without `t`. -/
lemma relocate_spec : relocate f t x = if x = f then t else
    let y := if x ≤ f then x else x - 1
    if y < t then y else y + 1 := by
  unfold relocate
  dsimp only
  split_ifs <;> omega

lemma relocate_self : relocate f t f = t := if_pos rfl

lemma relocate_ne (ne : x ≠ f) : relocate f t x ≠ t := by
  rw [relocate_spec, if_neg ne]
  dsimp only
  split_ifs <;> omega

lemma relocate_inj (same : relocate f t x = relocate f t y) : x = y := by
  rw [relocate_spec, relocate_spec] at same
  dsimp only at same
  split_ifs at same <;> omega

lemma getElem?_relocate {l : List α} (lt : f < l.length) (lt' : t < l.length) :
    (moveIdx f t l)[relocate f t x]? = l[x]? := by
  rw [getElem?_moveIdx lt lt']
  by_cases here : x = f
  · rw [here, if_pos relocate_self]
  · rw [if_neg (relocate_ne here), relocate_spec, if_neg here]
    dsimp only
    split_ifs <;> first | omega | exact congrArg (l[·]?) (by omega)

/-- Membership after a row has been put in at `t` that was taken out at `f`. -/
lemma mem_moveIndex {s : IndexSet} : x ∈ (s.eraseAt f).insertAt t 1 Nat.one_pos ↔
    x = t ∨ (x ≠ t ∧
      let y := if x < t then x else x - 1
      if y < f then y ∈ s else y + 1 ∈ s) := by
  grind

lemma mem_moveCol {col : IndexSet} : x ∈ moveCol f t col ↔
    (x = t ∧ f ∈ col) ∨ (x ≠ t ∧
      let y := if x < t then x else x - 1
      if y < f then y ∈ col else y + 1 ∈ col) := by
  have test := @IndexSet.contains_iff col f
  rw [moveCol]
  split
  · grind
  · grind

/-- The loop of `move` fails no assertion when no two moves end at one row. -/
lemma moveRows_eq {moves : List Move} {insertions : IndexSet} {updated : Bool}
    (targets : moves.Pairwise fun a b => a.toRow ≠ b.toRow)
    (fresh : updated → ∀ m ∈ moves, m.toRow ≠ f) :
    moveRows f t moves insertions updated = .ok
      (moves.map fun m => { m with toRow := relocate f t m.toRow },
        if f ∈ moves.map Move.toRow then (insertions.eraseAt f).insertAt t 1 Nat.one_pos
          else insertions,
        updated || f ∈ moves.map Move.toRow) := by
  induction moves generalizing insertions updated with
  | nil => simp [moveRows]
  | cons m moves ih =>
    obtain ⟨others, rest⟩ := List.pairwise_cons.mp targets
    rw [moveRows]
    by_cases here : m.toRow = f
    · have before : updated = false := by
        by_contra set
        exact fresh (Bool.eq_true_of_not_eq_false set) m List.mem_cons_self here
      have later : ∀ a ∈ moves, a.toRow ≠ f := fun a mem same => others a mem (here.trans same.symm)
      have none' : f ∉ moves.map Move.toRow := by
        rintro mem
        obtain ⟨a, old, same⟩ := List.mem_map.mp mem
        exact later a old same
      rw [if_neg (not_not.mpr here), before, ih rest fun _ => later]
      simp [here, none', relocate_self, Bind.bind, Except.bind, Pure.pure, Except.pure]
    · have tail : updated → ∀ a ∈ moves, a.toRow ≠ f := fun set a mem =>
        fresh set a (List.mem_cons_of_mem m mem)
      rw [if_pos here, ih rest tail]
      have other : f ≠ m.toRow := fun same => here same.symm
      simp [other, Bind.bind, Except.bind, Pure.pure, Except.pure]

/-- What `move` leaves. A row that was inserted is inserted elsewhere; any other is deleted where it
was in the old list and reported as a move. -/
structure Displaced (f t : ℕ) (c c' : CollectionChangeBuilder) : Prop where
  modifications : c'.modifications = moveCol f t c.modifications
  columns : ∀ col, c'.columns col = moveCol f t (c.columns col)
  insertions : ∀ x, x ∈ c'.insertions ↔ x ∈ (c.insertions.eraseAt f).insertAt t 1 Nat.one_pos
  deletions : ∀ x, x ∈ c'.deletions ↔ x ∈ c.deletions ∨
    (f ∉ c.insertions ∧ x = c.deletions.shift (rank (· ∈ c.insertions) f))
  moves : c'.moves = (c.moves.map fun m => { m with toRow := relocate f t m.toRow }) ++
    if f ∈ c.insertions then [] else [⟨c.deletions.shift (rank (· ∈ c.insertions) f), t⟩]

lemma move_displaced (moved : Moved (· ∈ c.deletions) (· ∈ c.insertions) c.moves old mid)
    (ne : f ≠ t) :
    ∃ c', c.move f t = .ok c' ∧ Displaced f t c c' := by
  have unshifted := @IndexSet.eraseOrUnshift_fst f c.insertions
  have left (x : ℕ) : x ∈ (c.insertions.eraseOrUnshift f).2 ↔ x ∈ c.insertions.eraseAt f :=
    IndexSet.mem_eraseOrUnshift
  have added := @IndexSet.mem_addShifted c.deletions
  have shifted := @IndexSet.addShifted_fst c.deletions
  rw [move, if_neg ne, moveRows_eq moved.targets fun set => absurd set Bool.false_ne_true]
  by_cases target : f ∈ c.moves.map Move.toRow
  · have inserted : f ∈ c.insertions := by
      obtain ⟨m, mem, rfl⟩ := List.mem_map.mp target
      exact moved.inserted m mem
    rw [if_pos target]
    simp only [target, decide_true, Bool.or_true, Bind.bind, Except.bind, Pure.pure, Except.pure]
    refine ⟨_, rfl, rfl, fun _ => rfl, fun _ => Iff.rfl, fun x => ?_, ?_⟩
    · simp [inserted, forEachCol]
    · simp [inserted, forEachCol]
  · rw [if_neg target]
    simp only [target, decide_false, Bool.or_false, Bind.bind, Except.bind, Pure.pure, Except.pure]
    have put (x : ℕ) : x ∈ (c.insertions.eraseOrUnshift f).2.insertAt t 1 Nat.one_pos ↔
        x ∈ (c.insertions.eraseAt f).insertAt t 1 Nat.one_pos := by
      rw [IndexSet.mem_insertAt, IndexSet.mem_insertAt, left, left]
    by_cases inserted : f ∈ c.insertions
    · rw [if_pos inserted] at unshifted
      simp only [unshifted]
      refine ⟨_, rfl, rfl, fun _ => rfl, put, fun x => ?_, ?_⟩
      · simp [inserted, forEachCol]
      · simp [inserted, forEachCol]
    · rw [if_neg inserted] at unshifted
      simp only [unshifted]
      refine ⟨_, rfl, rfl, fun _ => rfl, put, fun x => ?_, ?_⟩
      · simp only [inserted, not_false_iff, true_and, forEachCol]
        rw [added]
        exact or_comm
      · simp [inserted, forEachCol, shifted]

/-- A move, too, leaves no two moves that end at one row. -/
lemma move_targets (targets : Targets c.moves) (ne : f ≠ t) :
    ∃ c', c.move f t = .ok c' ∧ Targets c'.moves := by
  have carried : Targets (c.moves.map fun m => { m with toRow := relocate f t m.toRow }) :=
    targets.retarget (relocate f t) fun _ _ _ _ => relocate_inj
  rw [move, if_neg ne, moveRows_eq targets fun set => absurd set Bool.false_ne_true]
  by_cases target : f ∈ c.moves.map Move.toRow
  · simp only [target, decide_true, Bool.or_true, if_true, Bind.bind, Except.bind]
    exact ⟨_, rfl, carried⟩
  · simp only [target, decide_false, Bool.or_false, if_false, Bind.bind, Except.bind,
      Bool.false_eq_true]
    cases (c.insertions.eraseOrUnshift f).1 with
    | none => exact ⟨_, rfl, carried⟩
    | some shifted =>
      refine ⟨_, rfl, List.pairwise_append.mpr ⟨carried, List.pairwise_singleton .., ?_⟩⟩
      intro a mem b last
      obtain ⟨m, old, rfl⟩ := List.mem_map.mp mem
      rw [List.mem_singleton.mp last]
      exact relocate_ne fun here => target (List.mem_map.mpr ⟨m, old, here⟩)

lemma Records.move {c' : CollectionChangeBuilder} (recs : Records c old mid) (lt : f < mid.length)
    (lt' : t < mid.length) (next : Displaced f t c c') : Records c' old (moveIdx f t mid) := by
  have kept (x : ℕ) (gone : x ∈ c.deletions) : x ∈ c'.deletions :=
    (next.deletions x).mpr (.inl gone)
  have goes (x : ℕ) (came : x ∈ c.insertions) (ne : x ≠ f) : relocate f t x ∈ c'.insertions := by
    rw [next.insertions, mem_moveIndex]
    refine .inr ⟨relocate_ne ne, ?_⟩
    rw [relocate_spec, if_neg ne]
    rcases Nat.lt_or_gt_of_ne ne with before | after
    · rw [if_pos before.le]
      grind
    · rw [if_neg (Nat.not_le_of_lt after)]
      grind
  constructor
  · refine recs.turns.compose (Turns.moveIdx lt lt') (fun x => ?_) (fun y => ?_)
    · rw [next.deletions, IndexSet.eq_shift_iff, takenAt_single]
      tauto
    · rw [next.insertions, mem_moveIndex, takenAt_of_single, rank_single]
      dsimp only
      rcases Nat.lt_trichotomy y t with before | here | after
      · rw [if_pos before, if_pos before.le]
        grind
      · simp [here]
      · rw [if_neg (Nat.not_lt_of_gt after), if_neg (Nat.not_le_of_lt after)]
        grind
  · have carried : Moved (· ∈ c'.deletions) (· ∈ c'.insertions)
        (c.moves.map fun m => { m with toRow := relocate f t m.toRow }) old (moveIdx f t mid) := by
      refine recs.moved.retarget (relocate f t) kept ?_ ?_ fun _ _ _ _ => relocate_inj
      · intro m _ came
        by_cases here : m.toRow = f
        · rw [here, relocate_self, next.insertions, mem_moveIndex]
          exact .inl rfl
        · exact goes m.toRow came here
      · exact fun m _ => getElem?_relocate lt lt'
    rw [next.moves]
    split_ifs with inserted
    · rwa [List.append_nil]
    · have stays : c.deletions.shift (rank (· ∈ c.insertions) f) ∉ c.deletions :=
        IndexSet.shift_notMem
      have ranked : rank (· ∈ c.deletions) (c.deletions.shift (rank (· ∈ c.insertions) f)) =
          rank (· ∈ c.insertions) f := IndexSet.rank_shift
      refine carried.push ?_ ?_ ?_ ?_ ?_
      · exact (next.deletions _).mpr (.inr ⟨inserted, rfl⟩)
      · exact (next.insertions t).mpr (mem_moveIndex.mpr (.inl rfl))
      · have end' := @getElem?_relocate α f t f mid lt lt'
        rw [relocate_self] at end'
        rw [recs.turns.same stays inserted ranked, end']
      · refine List.forall_mem_map.mpr fun m mem same => stays ?_
        have gone := recs.moved.deleted m mem
        dsimp only at same
        rwa [same] at gone
      · refine List.forall_mem_map.mpr fun m mem => relocate_ne fun here => inserted ?_
        rw [← here]
        exact recs.moved.inserted m mem

end Move

section CleanUp
variable {α : Type*} {old new : List α} {deletions insertions : IndexSet} {m : Move}

/-- Without the moves between the deletions and the insertions, the row would be where it is. -/
def Stale (deletions insertions : IndexSet) (m : Move) : Prop :=
  rank (· ∈ deletions) m.fromRow = rank (· ∈ insertions) m.toRow

lemma stale_iff :
    ¬ (m.fromRow - deletions.count 0 m.fromRow ≠ m.toRow - insertions.count 0 m.toRow) ↔
    Stale deletions insertions m := by
  rw [not_not, Stale]
  exact iff_of_eq (congrArg₂ _ IndexSet.unshift_eq IndexSet.unshift_eq)

lemma mem_remove_one {s : IndexSet} {index x : ℕ} :
    x ∈ s.remove index 1 Nat.one_pos ↔ x ∈ s ∧ x ≠ index := by
  rw [IndexSet.mem_remove]
  refine and_congr_right fun _ => not_congr ?_
  omega

/-- The loop of `clean_up_stale_moves` has looked at some moves and keeps those that are
none of them stale. -/
structure Cleaning (old new : List α) (deletions insertions : IndexSet) (kept rest : List Move) :
    Prop where
  turns : Turns (· ∈ deletions) (· ∈ insertions) old new
  moved : Moved (· ∈ deletions) (· ∈ insertions) (kept ++ rest) old new
  fresh : ∀ m ∈ kept, ¬ Stale deletions insertions m

namespace Cleaning
variable {kept rest : List Move}

lemma keep (cleaning : Cleaning old new deletions insertions kept (m :: rest))
    (fresh : ¬ Stale deletions insertions m) :
    Cleaning old new deletions insertions (kept ++ [m]) rest := by
  refine ⟨cleaning.turns, ?_, fun a mem => ?_⟩
  · rw [List.append_assoc]
    exact cleaning.moved
  · rcases List.mem_append.mp mem with before | here
    · exact cleaning.fresh a before
    · rwa [List.mem_singleton.mp here]

/-- A stale move goes with its deletion and its insertion, and makes no other move stale. -/
lemma cancel (cleaning : Cleaning old new deletions insertions kept (m :: rest))
    (stale : Stale deletions insertions m) :
    Cleaning old new (deletions.remove m.fromRow 1 Nat.one_pos)
      (insertions.remove m.toRow 1 Nat.one_pos)
      kept rest := by
  obtain ⟨turns, moved, fresh⟩ := cleaning
  have here : m ∈ kept ++ m :: rest := List.mem_append_right kept List.mem_cons_self
  have gone := moved.deleted m here
  have came := moved.inserted m here
  have sources := List.pairwise_middle (fun ne same => ne same.symm) |>.mp moved.sources
  have targets := List.pairwise_middle (fun ne same => ne same.symm) |>.mp moved.targets
  obtain ⟨source, sources⟩ := List.pairwise_cons.mp sources
  obtain ⟨target, targets⟩ := List.pairwise_cons.mp targets
  have old' (a : Move) (mem : a ∈ kept ++ rest) : a ∈ kept ++ m :: rest :=
    List.mem_append.mpr ((List.mem_append.mp mem).imp_right (List.mem_cons_of_mem m))
  have others (z : ℕ) : z ∈ deletions.remove m.fromRow 1 Nat.one_pos ↔ z ∈ deletions ∧
      z ≠ m.fromRow :=
    mem_remove_one
  have others' (z : ℕ) : z ∈ insertions.remove m.toRow 1 Nat.one_pos ↔ z ∈ insertions ∧
      z ≠ m.toRow :=
    mem_remove_one
  constructor
  · have back (z : ℕ) : z ∈ deletions.remove m.fromRow 1 Nat.one_pos ∨ z = m.fromRow ↔
        z ∈ deletions := by
      rw [others]
      by_cases same : z = m.fromRow
      · simp [same, gone]
      · simp [same]
    have back' (z : ℕ) : z ∈ insertions.remove m.toRow 1 Nat.one_pos ∨ z = m.toRow ↔
        z ∈ insertions := by
      rw [others']
      by_cases same : z = m.toRow
      · simp [same, came]
      · simp [same]
    refine (turns.congr back back').cancel ?_ ?_ ?_ (moved.same m here)
    · rw [others]
      exact fun out => out.2 rfl
    · rw [others']
      exact fun out => out.2 rfl
    · rw [rank_without gone others, rank_without came others', stale]
      simp
  · refine ⟨fun a mem => ?_, fun a mem => ?_, fun a mem => moved.same a (old' a mem),
      sources, targets⟩
    · exact (others _).mpr ⟨moved.deleted a (old' a mem), (source a mem).symm⟩
    · exact (others' _).mpr ⟨moved.inserted a (old' a mem), (target a mem).symm⟩
  · intro a mem
    have mem' := List.mem_append_left rest mem
    exact rank_without_ne gone came stale others others' (source a mem').symm (target a mem').symm
      (fresh a mem)

end Cleaning

lemma cleanUp_cleaning {kept rest : List Move}
    (cleaning : Cleaning old new deletions insertions kept rest) :
    let (moves, deletions, insertions) := cleanUp rest deletions insertions
    Cleaning old new deletions insertions (kept ++ moves) [] := by
  induction rest generalizing kept deletions insertions with
  | nil =>
    rw [cleanUp]
    simpa using cleaning
  | cons m rest ih =>
    rw [cleanUp]
    split_ifs with fresh
    · have tail := ih (cleaning.keep fun stale => stale_iff.mpr stale fresh)
      simpa using tail
    · exact ih (cleaning.cancel (stale_iff.mp fresh))

/-- After `clean_up_stale_moves` every move is a move. -/
lemma Records.cleanUpStaleMoves {c : CollectionChangeBuilder} (recs : Records c old new) :
    Records c.cleanUpStaleMoves old new ∧
    ∀ m ∈ c.cleanUpStaleMoves.moves,
      ¬ Stale c.cleanUpStaleMoves.deletions c.cleanUpStaleMoves.insertions m := by
  have start : Cleaning old new c.deletions c.insertions [] c.moves :=
    ⟨recs.turns, recs.moved, nofun⟩
  have cleaned := cleanUp_cleaning start
  refine ⟨⟨cleaned.turns, ?_⟩, cleaned.fresh⟩
  have moved := cleaned.moved
  rwa [List.append_nil] at moved

end CleanUp

section Finalize
variable {c : CollectionChangeBuilder} {x y : ℕ}

lemma mem_modifications : x ∈ c.finalize.modifications ↔ x ∉ c.deletions ∧
    ∃ y ∈ c.modifications, y ∉ c.insertions ∧
      rank (· ∈ c.insertions) y = rank (· ∈ c.deletions) x := by
  show x ∈ (c.modifications.eraseSet c.insertions).shiftForInsertSet c.deletions ↔ _
  rw [IndexSet.mem_shiftForInsertSet, IndexSet.mem_eraseSet]

lemma mem_modificationsNew : y ∈ c.finalize.modificationsNew ↔ y ∈ c.modifications ∧
    y ∉ c.insertions :=
  IndexSet.mem_removeSet

/-- Two rows of the same rank are both reported as modified, or neither is. -/
lemma mem_modifications_iff (stays : x ∉ c.deletions) (stays' : y ∉ c.insertions)
    (level : rank (· ∈ c.deletions) x = rank (· ∈ c.insertions) y) :
    x ∈ c.finalize.modifications ↔ y ∈ c.finalize.modificationsNew := by
  rw [mem_modifications, mem_modificationsNew]
  constructor
  · rintro ⟨-, z, modified, out, same⟩
    have here : z = y := rank_inj out stays' (same.trans level)
    exact ⟨here ▸ modified, stays'⟩
  · rintro ⟨modified, -⟩
    exact ⟨stays, y, modified, stays', level.symm⟩

/-- The old rows and the new rows reported as modified are the same rows in the same order. -/
lemma modifications_correspond : c.finalize.modifications.asIndexes.map (rank (· ∈ c.deletions)) =
    c.finalize.modificationsNew.asIndexes.map (rank (· ∈ c.insertions)) := by
  have ascends {s p : IndexSet} (out : ∀ z ∈ s, z ∉ p) :
      (s.asIndexes.map (rank (· ∈ p))).Pairwise (· < ·) :=
    List.pairwise_map.mpr (s.asIndexes_sorted.imp_of_mem fun mem _ lt =>
      rank_lt (out _ (IndexSet.mem_asIndexes.mp mem)) lt)
  have kept : ∀ x ∈ c.finalize.modifications, x ∉ c.deletions :=
    fun x mem => (mem_modifications.mp mem).1
  have kept' : ∀ y ∈ c.finalize.modificationsNew, y ∉ c.insertions := fun y mem =>
    (mem_modificationsNew.mp mem).2
  refine (ascends kept).eq_of_mem_iff (ascends kept') fun k => ?_
  simp only [List.mem_map, IndexSet.mem_asIndexes]
  constructor
  · rintro ⟨x, mem, rfl⟩
    obtain ⟨stays, y, -, stays', level⟩ := mem_modifications.mp mem
    exact ⟨y, (mem_modifications_iff stays stays' level.symm).mp mem, level⟩
  · rintro ⟨y, mem, rfl⟩
    have stays : c.deletions.shift (rank (· ∈ c.insertions) y) ∉ c.deletions :=
      IndexSet.shift_notMem
    have level : rank (· ∈ c.deletions) (c.deletions.shift (rank (· ∈ c.insertions) y)) =
        rank (· ∈ c.insertions) y := IndexSet.rank_shift
    exact ⟨_, (mem_modifications_iff stays (kept' y mem) level).mpr mem, level⟩

end Finalize

end CollectionChangeBuilder

end SpecialtyMap.Notify
