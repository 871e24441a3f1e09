import SpecialtyMap.Log.Instruction
import SpecialtyMap.Notify.ChangeBuilder
import SpecialtyMap.Position.Patch

/-!
# Observing a list

The transaction log says what was done to a list, without the values. `TransactLogObserver` hands
its list instructions to the builder of the list, and at the end of the log has stale moves cleaned
up. What is reported then lets an observer who holds the old values, and may read the new ones,
bring its copy up to date (`Reports`), whatever was done to the list and in whatever order
(`edits_reported`).
-/

namespace SpecialtyMap.Notify
open SpecialtyMap.Log SpecialtyMap.Machine SpecialtyMap.Position

/-- A row of a list, with the value it had when the list was last reported or it came in. -/
structure Row (α : Type*) where
  origin : α
  value : α
  touched : Bool

namespace Row

def fresh {α : Type*} (value : α) : Row α := ⟨value, value, false⟩

def assign {α : Type*} (value : α) (row : Row α) : Row α := { row with value, touched := true }

end Row

/-- What can be done to a list, with the values that are not in the log. -/
inductive Edit (α : Type*) where
  | set (ndx : ℕ) (value : α)
  | insert (ndx : ℕ) (value : α)
  | erase (ndx : ℕ)
  | move (f t : ℕ)
  | swap (ndx1 ndx2 : ℕ)
  | clear

/-- The list with two elements exchanged. -/
def swapIdx {α : Type*} (m n : ℕ) (l : List α) : List α :=
  match l[m]?, l[n]? with
  | some a, some b => (l.set m b).set n a
  | _, _ => l

namespace Edit
variable {α : Type*}

/-- The edits of a list of this size that `Lst` logs: the rows are there, and none
moves to where it is. -/
def Allowed (size : ℕ) : Edit α → Prop
  | set ndx _ | erase ndx => ndx < size
  | insert ndx _ => ndx ≤ size
  | move f t => f < size ∧ t < size ∧ f ≠ t
  | swap ndx1 ndx2 => ndx1 < size ∧ ndx2 < size ∧ ndx1 ≠ ndx2
  | clear => True

instance {size : ℕ} : (e : Edit α) → Decidable (e.Allowed size)
  | set ndx _ | erase ndx => inferInstanceAs (Decidable (ndx < size))
  | insert ndx _ => inferInstanceAs (Decidable (ndx ≤ size))
  | move f t => inferInstanceAs (Decidable (f < size ∧ t < size ∧ f ≠ t))
  | swap ndx1 ndx2 => inferInstanceAs (Decidable (ndx1 < size ∧ ndx2 < size ∧ ndx1 ≠ ndx2))
  | clear => inferInstanceAs (Decidable True)

def apply (rows : List (Row α)) : Edit α → List (Row α)
  | set ndx value => rows.modify ndx (Row.assign value)
  | insert ndx value => insertBlock ndx [.fresh value] rows
  | erase ndx => rows.eraseIdx ndx
  | move f t => moveIdx f t rows
  | swap ndx1 ndx2 => swapIdx ndx1 ndx2 rows
  | clear => []

/-- The instruction for an edit of a list of this size. -/
def instruction (size : ℕ) : Edit α → Instruction
  | set ndx _ => .listSet ndx
  | insert ndx _ => .listInsert ndx
  | erase ndx => .listErase ndx
  | move f t => .listMove f t
  | swap ndx1 ndx2 => .listSwap ndx1 ndx2
  | clear => .listClear size

/-- What is logged of edits, one after the other. -/
def log (rows : List (Row α)) : List (Edit α) → List Instruction
  | [] => []
  | e :: es => e.instruction rows.length :: log (e.apply rows) es

end Edit

namespace TransactLogObserver
open CollectionChangeBuilder

/-- The instructions for the active list, with the builder of that list. -/
def handle (c : CollectionChangeBuilder) : Instruction → Except Assertion CollectionChangeBuilder
  | .listSet index => .ok (c.modify index none)
  | .listInsert index => c.insert index 1
  | .listErase index => .ok (c.erase index)
  | .listSwap index1 index2 => do
    let (index1, index2) := if index1 > index2 then (index2, index1) else (index1, index2)
    let c ← c.move index1 index2
    if index1 + 1 ≠ index2 then c.move (index2 - 1) index1
    else return c
  | .listClear oldSize => .ok (c.clear oldSize)
  | .listMove f t => c.move f t
  | _ => .ok c

end TransactLogObserver

section Swap
variable {α : Type*} {l : List α} {m n x : ℕ}

lemma getElem?_swapIdx (lt : m < l.length) (lt' : n < l.length) :
    (swapIdx m n l)[x]? = if x = n then l[m]? else if x = m then l[n]? else l[x]? := by
  rw [swapIdx, List.getElem?_eq_getElem lt, List.getElem?_eq_getElem lt']
  dsimp only
  by_cases second : x = n
  · rw [if_pos second, second, List.getElem?_set_self]
    rwa [List.length_set]
  · rw [if_neg second, List.getElem?_set_ne (Ne.symm second)]
    by_cases first : x = m
    · rw [if_pos first, first, List.getElem?_set_self lt]
    · rw [if_neg first, List.getElem?_set_ne (Ne.symm first)]

lemma swapIdx_comm (lt : m < l.length) (lt' : n < l.length) : swapIdx m n l = swapIdx n m l := by
  refine List.ext_getElem? fun x => ?_
  rw [getElem?_swapIdx lt lt', getElem?_swapIdx lt' lt]
  split_ifs with first second
  · rw [← first, ← second]
  · rfl
  · rfl
  · rfl

/-- Two rows next to each other are exchanged by one move. -/
lemma moveIdx_adjacent (lt : m + 1 < l.length) : moveIdx m (m + 1) l = swapIdx m (m + 1) l := by
  refine List.ext_getElem? fun x => ?_
  have lt' : m < l.length := by omega
  rw [getElem?_moveIdx lt' lt, getElem?_swapIdx lt' lt]
  dsimp only
  rcases Nat.lt_trichotomy x m with before | here | after
  · have other : x ≠ m + 1 := by omega
    have low : x < m + 1 := by omega
    rw [if_neg other, if_pos low, if_pos before, if_neg other, if_neg before.ne]
  · have other : m ≠ m + 1 := by omega
    rw [here, if_neg other, if_pos (Nat.lt_succ_self m), if_neg (Nat.lt_irrefl m),
      if_neg other, if_pos rfl]
  · by_cases last : x = m + 1
    · rw [if_pos last, if_pos last]
    · have high : ¬ x < m + 1 := by omega
      have past : ¬ x - 1 < m := by omega
      have ne : x ≠ m := by omega
      rw [if_neg last, if_neg high, if_neg past, if_neg last, if_neg ne,
        Nat.sub_add_cancel (by omega)]

/-- Two rows further apart are exchanged by two moves. -/
lemma moveIdx_moveIdx (lt : m + 1 < n) (lt' : n < l.length) :
    moveIdx (n - 1) m (moveIdx m n l) = swapIdx m n l := by
  refine List.ext_getElem? fun x => ?_
  have first : m < l.length := by omega
  have size : (moveIdx m n l).length = l.length := length_moveIdx first lt'
  rw [getElem?_moveIdx (by omega) (by omega), getElem?_swapIdx first lt']
  simp only [getElem?_moveIdx first lt']
  grind

end Swap

/-- The builder follows a list: it records how the old list has become the rows there are, by the
values they came with, and knows which of them may have another value by now. -/
structure Follows {α : Type*} (c : CollectionChangeBuilder) (old : List α)
    (rows : List (Row α)) : Prop where
  records : c.Records old (rows.map Row.origin)
  marked : Marked (· ∈ c.modifications) (fun row => row.touched = true) rows
  kept : ∀ (x : ℕ) (row : Row α), rows[x]? = some row → row.touched = false → row.value = row.origin

namespace Follows
open CollectionChangeBuilder
variable {α : Type*} {c : CollectionChangeBuilder} {old : List α} {rows : List (Row α)}
  {index f t m n : ℕ} {value : α}

lemma init : Follows {} old (old.map Row.fresh) := by
  have origins : (old.map Row.fresh).map Row.origin = old := by
    rw [List.map_map]
    exact List.map_id old
  have none' {x : ℕ} : ¬ x ∈ IndexSet.empty := Position.contains_nil
  refine ⟨⟨?_, ⟨nofun, nofun, nofun, .nil, .nil⟩⟩, fun x => iff_of_false none' ?_,
    fun x row here _ => ?_⟩
  · rw [origins]
    exact (Turns.refl old).congr (fun _ => iff_of_false none' not_false) fun _ =>
      iff_of_false none' not_false
  · rintro ⟨row, here, touched⟩
    rw [List.getElem?_map] at here
    obtain ⟨a, -, rfl⟩ := Option.map_eq_some_iff.mp here
    cases touched
  · rw [List.getElem?_map] at here
    obtain ⟨a, -, rfl⟩ := Option.map_eq_some_iff.mp here
    rfl

lemma set (follows : Follows c old rows) (lt : index < rows.length) :
    Follows (c.modify index none) old (rows.modify index (Row.assign value)) := by
  have origins : (rows.modify index (Row.assign value)).map Row.origin = rows.map Row.origin := by
    refine List.ext_getElem? fun x => ?_
    rw [List.getElem?_map, List.getElem?_map]
    by_cases here : index = x
    · rw [here, List.getElem?_modify_eq, Option.map_eq_map, Option.map_map]
      rfl
    · rw [List.getElem?_modify_ne _ _ here]
  constructor
  · rw [origins]
    exact ⟨follows.records.turns, follows.records.moved⟩
  · intro x
    refine IndexSet.mem_add.trans ?_
    by_cases here : index = x
    · have row : (rows.modify index (Row.assign value))[x]? =
          some (Row.assign value (rows[index])) := by
        rw [← here, List.getElem?_modify_eq, List.getElem?_eq_getElem lt]
        rfl
      rw [row]
      exact iff_of_true (.inl here.symm) ⟨_, rfl, rfl⟩
    · rw [List.getElem?_modify_ne _ _ here, ← follows.marked x]
      exact or_iff_right (Ne.symm here)
  · intro x row here untouched
    by_cases same : index = x
    · rw [same, List.getElem?_modify_eq] at here
      obtain ⟨before, -, rfl⟩ := Option.map_eq_some_iff.mp here
      cases untouched
    · rw [List.getElem?_modify_ne _ _ same] at here
      exact follows.kept x row here untouched

lemma insert (follows : Follows c old rows) (le : index ≤ rows.length) :
    ∃ c', c.insert index 1 = .ok c' ∧ Follows c' old
      (insertBlock index [Row.fresh value] rows) := by
  have origins : (insertBlock index [Row.fresh value] rows).map Row.origin =
      insertBlock index [value] (rows.map Row.origin) := by
    simp [insertBlock, Row.fresh]
  have le' : index ≤ (rows.map Row.origin).length := by rwa [List.length_map]
  obtain ⟨c', ok, carried, records⟩ :=
    @Records.insert α c old _ [value] index follows.records le' Nat.one_pos
  refine ⟨c', ok, ?_, ?_, ?_⟩
  · rwa [origins]
  · rw [carried]
    refine follows.marked.insertBlock le ?_ fun x =>
      @IndexSet.mem_shiftForInsertAt index 1 _ x Nat.one_pos
    rintro row mem touched
    rw [List.mem_singleton.mp mem] at touched
    cases touched
  · intro x row here
    rw [getElem?_insertBlock le] at here
    split_ifs at here
    · exact follows.kept _ row here
    · have mem := List.mem_of_getElem? here
      rw [List.mem_singleton.mp mem]
      exact fun _ => rfl
    · exact follows.kept _ row here

lemma erase (follows : Follows c old rows) (lt : index < rows.length) :
    Follows (c.erase index) old (rows.eraseIdx index) := by
  have origins : (rows.eraseIdx index).map Row.origin = (rows.map Row.origin).eraseIdx index :=
    (List.eraseIdx_map ..).symm
  constructor
  · rw [origins]
    exact follows.records.erase (by rwa [List.length_map])
  · exact follows.marked.eraseIdx fun x => IndexSet.mem_eraseAt
  · intro x row here
    rw [List.getElem?_eraseIdx] at here
    split_ifs at here
    · exact follows.kept _ row here
    · exact follows.kept _ row here

lemma move (follows : Follows c old rows) (lt : f < rows.length) (lt' : t < rows.length)
    (ne : f ≠ t) :
    ∃ c', c.move f t = .ok c' ∧ Follows c' old (moveIdx f t rows) := by
  have origins : (moveIdx f t rows).map Row.origin = moveIdx f t (rows.map Row.origin) := by
    refine List.ext_getElem? fun x => ?_
    rw [List.getElem?_map, getElem?_moveIdx lt lt',
      getElem?_moveIdx (by simpa using lt) (by simpa using lt')]
    simp only [List.getElem?_map]
    split_ifs <;> rfl
  obtain ⟨c', ok, next⟩ := move_displaced follows.records.moved ne
  refine ⟨c', ok, ?_, ?_, ?_⟩
  · rw [origins]
    exact follows.records.move (by simpa using lt) (by simpa using lt') next
  · rw [next.modifications]
    exact follows.marked.moveIdx lt lt' fun x => mem_moveCol
  · intro x row here
    rw [getElem?_moveIdx lt lt'] at here
    dsimp only at here
    split_ifs at here
    all_goals exact follows.kept _ row here

lemma swap (follows : Follows c old rows) (lt : m < rows.length) (lt' : n < rows.length)
    (ne : m ≠ n) :
    ∃ c', TransactLogObserver.handle c (.listSwap m n) = .ok c' ∧
    Follows c' old (swapIdx m n rows) := by
  -- the handler puts the lower row first
  have ordered {m n : ℕ} (lt : m < n) (lt' : n < rows.length) : ∃ c',
      (c.move m n >>= fun c => if m + 1 ≠ n then c.move (n - 1) m else pure c) = .ok c' ∧
      Follows c' old (swapIdx m n rows) := by
    obtain ⟨c₁, first, follows₁⟩ := follows.move (lt.trans lt') lt' lt.ne
    by_cases adjacent : m + 1 = n
    · refine ⟨c₁, ?_, ?_⟩
      · simp only [first, adjacent, ne_eq, not_true, if_false, Bind.bind, Except.bind]
        rfl
      · rw [← adjacent] at follows₁ lt' ⊢
        rwa [moveIdx_adjacent lt'] at follows₁
    · have size : (moveIdx m n rows).length = rows.length := length_moveIdx (lt.trans lt') lt'
      obtain ⟨c₂, second, follows₂⟩ := @follows₁.move α c₁ old _ (n - 1) m (by omega)
        (by omega) (by omega)
      refine ⟨c₂, ?_, ?_⟩
      · simp only [first, adjacent, ne_eq, not_false_iff, if_true, Bind.bind, Except.bind]
        exact second
      · rwa [moveIdx_moveIdx (by omega) lt'] at follows₂
  rcases Nat.lt_or_gt_of_ne ne with before | after
  · have order : ¬ m > n := Nat.not_lt_of_gt before
    rw [TransactLogObserver.handle, if_neg order]
    exact ordered before lt'
  · rw [TransactLogObserver.handle, if_pos after, swapIdx_comm lt lt']
    exact ordered after lt

lemma clear (follows : Follows c old rows) : Follows (c.clear rows.length) old [] := by
  have records := follows.records.clear
  rw [List.length_map] at records
  exact ⟨records, fun x => iff_of_false Position.contains_nil (by simp), by simp⟩

/-- Whatever is done to the list, the handler of its instruction follows it and
fails no assertion. -/
lemma step (follows : Follows c old rows) {e : Edit α} (allowed : e.Allowed rows.length) :
    ∃ c', TransactLogObserver.handle c (e.instruction rows.length) = .ok c' ∧
      Follows c' old (e.apply rows) := by
  cases e with
  | set ndx value => exact ⟨_, rfl, follows.set allowed⟩
  | insert ndx value => exact follows.insert allowed
  | erase ndx => exact ⟨_, rfl, follows.erase allowed⟩
  | move f t => exact follows.move allowed.1 allowed.2.1 allowed.2.2
  | swap ndx1 ndx2 => exact follows.swap allowed.1 allowed.2.1 allowed.2.2
  | clear => exact ⟨_, rfl, follows.clear⟩

lemma run (follows : Follows c old rows) {es : List (Edit α)}
    (allowed : AllSteps Edit.apply (fun rows e => e.Allowed rows.length) rows es) :
    ∃ c', execM TransactLogObserver.handle c (Edit.log rows es) = .ok c' ∧
      Follows c' old (exec Edit.apply rows es) := by
  induction es generalizing c rows with
  | nil => exact ⟨c, rfl, follows⟩
  | cons e es ih =>
    obtain ⟨c₁, first, follows₁⟩ := follows.step allowed.1
    obtain ⟨c₂, rest, follows₂⟩ := ih follows₁ allowed.2
    exact ⟨c₂, execM_cons_ok.mpr ⟨c₁, first, rest⟩, follows₂⟩

lemma cleanUpStaleMoves (follows : Follows c old rows) : Follows c.cleanUpStaleMoves old rows :=
  ⟨follows.records.cleanUpStaleMoves.1, follows.marked, follows.kept⟩

end Follows

/-- The two rows that are moved or exchanged differ, as the functions that log it see to. -/
def Proper : Instruction → Prop
  | .listMove f t => f ≠ t
  | .listSwap m n => m ≠ n
  | _ => True

instance : DecidablePred Proper
  | .listMove f t => inferInstanceAs (Decidable (f ≠ t))
  | .listSwap m n => inferInstanceAs (Decidable (m ≠ n))
  | .insertGroupLevelTable _ | .eraseGroupLevelTable _ | .renameGroupLevelTable _ | .selectTable _
  | .createObject _ | .removeObject _ | .set _ _ | .clearTable _ | .insertColumn _ | .eraseColumn _
  | .renameColumn _ | .setLinkType _ | .selectList _ _ | .listInsert _ | .listSet _ | .listErase _
  | .listClear _ => inferInstanceAs (Decidable True)

section Proper
open CollectionChangeBuilder
variable {c : CollectionChangeBuilder} {i : Instruction} {is : List Instruction}

/-- The handler of an instruction fails no assertion, whatever list it is about. -/
lemma handle_targets (targets : Targets c.moves) (proper : Proper i) :
    ∃ c', TransactLogObserver.handle c i = .ok c' ∧ Targets c'.moves := by
  cases i with
  | listInsert ndx => exact insert_targets targets
  | listErase ndx => exact ⟨_, rfl, erase_targets targets⟩
  | listClear oldSize => exact ⟨_, rfl, .nil⟩
  | listMove f t => exact move_targets targets proper
  | listSwap m n =>
    -- the handler puts the lower row first
    have ordered {m n : ℕ} (lt : m < n) : ∃ c',
        (c.move m n >>= fun c => if m + 1 ≠ n then c.move (n - 1) m else pure c) = .ok c' ∧
        Targets c'.moves := by
      obtain ⟨c₁, first, targets₁⟩ := move_targets targets lt.ne
      by_cases adjacent : m + 1 = n
      · refine ⟨c₁, ok_bind_iff.mpr ⟨c₁, first, ?_⟩, targets₁⟩
        rw [if_neg (not_not.mpr adjacent)]
        rfl
      · have ne : n - 1 ≠ m := by omega
        obtain ⟨c₂, second, targets₂⟩ := move_targets targets₁ ne
        refine ⟨c₂, ok_bind_iff.mpr ⟨c₁, first, ?_⟩, targets₂⟩
        rwa [if_pos adjacent]
    rw [TransactLogObserver.handle]
    rcases Nat.lt_or_gt_of_ne proper with before | after
    · rw [if_neg (Nat.not_lt_of_gt before)]
      exact ordered before
    · rw [if_pos after]
      exact ordered after
  | _ => exact ⟨_, rfl, targets⟩

lemma execM_handle_ok (proper : ∀ i ∈ is, Proper i) :
    ∃ c, execM TransactLogObserver.handle {} is = .ok c := by
  have start : Targets ({} : CollectionChangeBuilder).moves := .nil
  obtain ⟨c, run, -⟩ := execM_invariant (I := fun c : CollectionChangeBuilder => Targets c.moves)
    (P := Proper) (fun _ _ targets proper => handle_targets targets proper) start proper
  exact ⟨c, run⟩

end Proper

section Reports
open CollectionChangeBuilder

/-- What a change set says to one who has the old values of a list and can read the new ones. -/
structure Reports {α : Type*} (cs : CollectionChangeSet) (old : List α)
    (rows : List (Row α)) : Prop where
  /-- Erasing what was deleted, inserting what came in and replacing what was modified leads
  to the new values. -/
  patched : replaceFrom (rows.map Row.value) cs.modificationsNew.asIndexes
    (insertFrom (rows.map Row.value) cs.insertions.asIndexes
      (eraseRanges cs.deletions.ranges old)) =
      rows.map Row.value
  /-- The rows reported as modified are those assigned to, less those that came in. -/
  modified : ∀ y, y ∈ cs.modificationsNew ↔ y ∉ cs.insertions ∧ ∃ row ∈ rows[y]?, row.touched = true
  /-- The same rows are reported by where they were. -/
  correspond : cs.modifications.asIndexes.map (rank (· ∈ cs.deletions)) =
    cs.modificationsNew.asIndexes.map (rank (· ∈ cs.insertions))
  /-- A row that moved was deleted where it was and inserted where it is, and did move. -/
  moved : Moved (· ∈ cs.deletions) (· ∈ cs.insertions) cs.moves old (rows.map Row.origin)
  fresh : ∀ m ∈ cs.moves, ¬ Stale cs.deletions cs.insertions m

variable {α : Type*} {c : CollectionChangeBuilder} {old : List α} {rows : List (Row α)}

lemma Follows.reports (follows : Follows c old rows)
    (fresh : ∀ m ∈ c.moves, ¬ Stale c.deletions c.insertions m) : Reports c.finalize old rows := by
  have modified (y : ℕ) : y ∈ c.finalize.modificationsNew ↔
      y ∉ c.insertions ∧ ∃ row ∈ rows[y]?, row.touched = true := by
    rw [mem_modificationsNew, and_comm]
    exact and_congr_right fun _ => follows.marked y
  refine ⟨?_, modified, @modifications_correspond c, follows.records.moved, fresh⟩
  refine patch_eq c.deletions.valid follows.records.turns (by simp)
    c.insertions.asIndexes_sorted (fun y => IndexSet.mem_asIndexes) fun y stays plain => ?_
  rw [IndexSet.mem_asIndexes, modified] at plain
  rw [List.getElem?_map, List.getElem?_map]
  cases row : rows[y]? with
  | none => rfl
  | some row' =>
    have untouched : row'.touched = false := by
      by_contra touched
      exact plain ⟨stays, row', row, Bool.eq_true_of_not_eq_false touched⟩
    rw [Option.map_some, Option.map_some, follows.kept y row' row untouched]

/-- Whatever was done to a list since it was last reported, following the log fails no assertion,
and what is reported at the end of it lets an observer follow the list. -/
theorem edits_reported {es : List (Edit α)} (allowed : AllSteps Edit.apply
      (fun rows e => e.Allowed rows.length) (old.map Row.fresh) es) :
    ∃ c, execM TransactLogObserver.handle {} (Edit.log (old.map Row.fresh) es) = .ok c ∧
      Reports c.cleanUpStaleMoves.finalize old (exec Edit.apply (old.map Row.fresh) es) := by
  obtain ⟨c, run, follows⟩ := Follows.init.run allowed
  exact ⟨c, run, follows.cleanUpStaleMoves.reports follows.records.cleanUpStaleMoves.2⟩

/-- A row is moved, one is assigned to, one comes in and one goes, and two are exchanged. -/
theorem edits_reported_moves :
    let es : List (Edit ℕ) := [.move 0 2, .set 1 7, .insert 1 8, .erase 3, .swap 0 2]
    ∃ c, execM TransactLogObserver.handle {} (Edit.log ([0, 1, 2, 3].map Row.fresh) es) = .ok c ∧
      Reports c.cleanUpStaleMoves.finalize [0, 1, 2, 3]
        (exec Edit.apply ([0, 1, 2, 3].map Row.fresh) es) :=
  edits_reported (by simp only [AllSteps]; decide)

end Reports

end SpecialtyMap.Notify
