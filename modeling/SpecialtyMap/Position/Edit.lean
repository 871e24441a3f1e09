import SpecialtyMap.Position.Drop

/-!
# Edits of lists

The single edits of a list, as differences: a block comes in, an element goes, or an element moves.
`Turns.compose` puts them behind a difference that is already there, and what they take from it is
computed by the lemmas on `rank` and `TakenAt` at one position.

`Marked` says of positions that they are those of the elements with a property, and follows the
edits too.
-/

namespace SpecialtyMap.Position

variable {α : Type*} {f k m n t x : ℕ}

section Rank
variable {p q : ℕ → Prop} [DecidablePred p]

@[simp] lemma rank_nothing : rank (fun _ => False) x = x := rank_of_stays fun _ _ => not_false

lemma rank_single : rank (· = k) x = if x ≤ k then x else x - 1 := by
  induction x with
  | zero => rfl
  | succ x ih =>
    rw [rank_succ, ih]
    split_ifs <;> omega

lemma rank_block : rank (fun y => k ≤ y ∧ y < k + n) x = if x ≤ k then x else max k (x - n) := by
  induction x with
  | zero => rfl
  | succ x ih =>
    rw [rank_succ, ih]
    split_ifs <;> omega

/-- A position that goes no longer adds one to the ranks after it. -/
lemma rank_without {q : ℕ → Prop} [DecidablePred q] (gone : p k) (others : ∀ y, q y ↔ p y ∧ y ≠ k) :
    rank q x = rank p x + if k < x then 1 else 0 := by
  induction x with
  | zero => rfl
  | succ x ih =>
    rw [rank_succ, rank_succ, ih]
    by_cases here : x = k
    · have stays : ¬ q x := fun taken => ((others x).mp taken).2 here
      have gone' : p x := here ▸ gone
      rw [if_neg stays, if_pos gone']
      split_ifs <;> omega
    · have same : q x ↔ p x := (others x).trans (and_iff_left here)
      simp only [same]
      split_ifs <;> omega

/-- Putting back a pair of the same rank leaves no other pair at the same rank
that was not there. -/
lemma rank_without_ne {p' q q' : ℕ → Prop} [DecidablePred q] [DecidablePred p'] [DecidablePred q']
    {f t x y : ℕ} (gone : p f) (came : q t) (level : rank p f = rank q t)
    (others : ∀ z, p' z ↔ p z ∧ z ≠ f) (others' : ∀ z, q' z ↔ q z ∧ z ≠ t)
    (here : x ≠ f) (here' : y ≠ t) (apart : rank p x ≠ rank q y) : rank p' x ≠ rank q' y := by
  rw [rank_without gone others, rank_without came others']
  rcases Nat.lt_or_gt_of_ne here with before | after
  · have low : rank p x ≤ rank p f := rank_mono before.le
    rcases Nat.lt_or_gt_of_ne here' with before' | after'
    · rwa [if_neg (Nat.not_lt_of_gt before), if_neg (Nat.not_lt_of_gt before')]
    · have high : rank q t ≤ rank q y := rank_mono after'.le
      rw [if_neg (Nat.not_lt_of_gt before), if_pos after']
      omega
  · have high : rank p f ≤ rank p x := rank_mono after.le
    rcases Nat.lt_or_gt_of_ne here' with before' | after'
    · have low : rank q y ≤ rank q t := rank_mono before'.le
      rw [if_pos after, if_neg (Nat.not_lt_of_gt before')]
      omega
    · rw [if_pos after, if_pos after']
      omega

@[simp] lemma takenAt_nothing : ¬ TakenAt p (fun _ => False) k := fun ⟨_, _, taken, _⟩ => taken

@[simp] lemma takenAt_of_nothing : TakenAt (fun _ => False) q k ↔ q k := by
  simp [TakenAt]

@[simp] lemma takenAt_single : TakenAt p (· = m) k ↔ ¬ p m ∧ rank p m = k := by
  simp [TakenAt]

lemma takenAt_of_single : TakenAt (· = m) q k ↔ (k < m ∧ q k) ∨ (m ≤ k ∧ q (k + 1)) := by
  simp only [TakenAt, rank_single]
  constructor
  · rintro ⟨z, stays, taken, rfl⟩
    split_ifs with le
    · exact .inl ⟨lt_of_le_of_ne le stays, taken⟩
    · refine .inr ⟨by omega, ?_⟩
      rwa [Nat.sub_add_cancel (by omega)]
  · rintro (⟨lt, taken⟩ | ⟨le, taken⟩)
    · exact ⟨k, lt.ne, taken, if_pos lt.le⟩
    · refine ⟨k + 1, by omega, taken, ?_⟩
      rw [if_neg (by omega), Nat.add_sub_cancel]

end Rank

/-- The list with a block put in before a position. -/
def insertBlock (k : ℕ) (block l : List α) : List α := l.take k ++ block ++ l.drop k

/-- The list with one element taken out and put in at another position. -/
def moveIdx (f t : ℕ) (l : List α) : List α :=
  match l[f]? with
  | none => l
  | some a => (l.eraseIdx f).insertIdx t a

section Edits
variable {block l : List α}

lemma length_insertBlock (le : k ≤ l.length) :
    (insertBlock k block l).length = l.length + block.length := by
  simp only [insertBlock, List.length_append, List.length_take, List.length_drop]
  omega

lemma getElem?_insertBlock (le : k ≤ l.length) : (insertBlock k block l)[x]? =
    if x < k then l[x]? else if x < k + block.length then block[x - k]?
    else l[x - block.length]? := by
  have front : (l.take k).length = k := List.length_take_of_le le
  have both : (l.take k ++ block).length = k + block.length := by rw [List.length_append, front]
  rw [insertBlock]
  split_ifs with low inside
  · rw [List.getElem?_append_left (by omega), List.getElem?_append_left (by omega),
      List.getElem?_take_of_lt low]
  · rw [List.getElem?_append_left (by omega), List.getElem?_append_right (by omega), front]
  · rw [List.getElem?_append_right (by omega), both, List.getElem?_drop]
    congr 1
    omega

lemma moveIdx_eq (lt : f < l.length) : moveIdx f t l = (l.eraseIdx f).insertIdx t l[f] := by
  rw [moveIdx, List.getElem?_eq_getElem lt]

lemma length_moveIdx (lt : f < l.length) (lt' : t < l.length) :
    (moveIdx f t l).length = l.length := by
  rw [moveIdx_eq lt, List.length_insertIdx_of_le_length, List.length_eraseIdx_of_lt lt]
  · omega
  · rw [List.length_eraseIdx_of_lt lt]
    omega

lemma getElem?_moveIdx (lt : f < l.length) (lt' : t < l.length) : (moveIdx f t l)[x]? =
    if x = t then l[f]? else
      let y := if x < t then x else x - 1
      if y < f then l[y]? else l[y + 1]? := by
  have bound : t ≤ (l.eraseIdx f).length := by
    rw [List.length_eraseIdx_of_lt lt]
    omega
  rw [moveIdx_eq lt, List.getElem?_insertIdx, List.getElem?_eq_getElem lt]
  split_ifs <;> first | omega | rfl | rw [List.getElem?_eraseIdx]

lemma dropAt_insertBlock (le : k ≤ l.length) :
    dropAt (fun y => k ≤ y ∧ y < k + block.length) (insertBlock k block l) = l := by
  have front : (l.take k).length = k := List.length_take_of_le le
  have first : dropAt (fun y => k ≤ y ∧ y < k + block.length) (l.take k) = l.take k :=
    dropAt_stays fun y lt => by omega
  have middle : dropAt (fun y => k ≤ k + y ∧ k + y < k + block.length) block = [] :=
    dropAt_gone fun y lt => by omega
  rw [insertBlock, dropAt_append, dropAt_append, first, front, middle, List.append_nil]
  refine (congrArg _ (dropAt_stays fun y _ => ?_)).trans (List.take_append_drop k l)
  rw [List.length_append, front]
  omega

end Edits

namespace Turns
variable {block l : List α}

lemma insertBlock (le : k ≤ l.length) :
    Turns (fun _ => False) (fun y => k ≤ y ∧ y < k + block.length) l (insertBlock k block l) := by
  refine ⟨(dropAt_stays fun _ _ => not_false).trans (dropAt_insertBlock le).symm, nofun,
    fun y mem => ?_⟩
  rw [length_insertBlock le]
  omega

lemma eraseIdx (lt : k < l.length) : Turns (· = k) (fun _ => False) l (l.eraseIdx k) := by
  refine ⟨(dropAt_single k l).trans (dropAt_stays fun _ _ => not_false).symm,
    fun x at_k => ?_, nofun⟩
  rwa [at_k]

lemma moveIdx (lt : f < l.length) (lt' : t < l.length) :
    Turns (· = f) (· = t) l (moveIdx f t l) := by
  refine ⟨?_, fun x at_f => at_f ▸ lt, fun y at_t => ?_⟩
  · rw [dropAt_single, dropAt_single, moveIdx_eq lt, List.eraseIdx_insertIdx_self]
  · rw [length_moveIdx lt lt', at_t]
    exact lt'

end Turns

/-- The positions of the elements with a property. -/
def Marked (s : ℕ → Prop) (P : α → Prop) (l : List α) : Prop := ∀ x, s x ↔ ∃ a ∈ l[x]?, P a

namespace Marked
variable {s s' : ℕ → Prop} {P : α → Prop} {block l : List α}

lemma insertBlock (marked : Marked s P l) (le : k ≤ l.length) (fresh : ∀ a ∈ block, ¬ P a)
    (moved : ∀ x, s' x ↔ (x < k ∧ s x) ∨ (k + block.length ≤ x ∧ s (x - block.length))) :
    Marked s' P (insertBlock k block l) := by
  intro x
  rw [moved, getElem?_insertBlock le]
  split_ifs with low inside
  · have before : ¬ k + block.length ≤ x := by omega
    simpa only [low, true_and, before, false_and, or_false] using marked x
  · have outside : ¬ k + block.length ≤ x := by omega
    simp only [low, outside, false_and, or_false, false_iff]
    rintro ⟨a, here, marks⟩
    exact fresh a (List.mem_of_getElem? here) marks
  · have after : k + block.length ≤ x := by omega
    simpa only [low, false_and, after, true_and, false_or] using marked (x - block.length)

lemma eraseIdx (marked : Marked s P l)
    (moved : ∀ x, s' x ↔ (x < k ∧ s x) ∨ (k ≤ x ∧ s (x + 1))) : Marked s' P (l.eraseIdx k) := by
  intro x
  rw [moved, List.getElem?_eraseIdx]
  split_ifs with low
  · have before : ¬ k ≤ x := Nat.not_le_of_lt low
    simpa only [low, true_and, before, false_and, or_false] using marked x
  · have after : k ≤ x := Nat.le_of_not_lt low
    simpa only [low, false_and, after, true_and, false_or] using marked (x + 1)

lemma moveIdx (marked : Marked s P l) (lt : f < l.length) (lt' : t < l.length)
    (moved : ∀ x, s' x ↔ (x = t ∧ s f) ∨ (x ≠ t ∧
      let y := if x < t then x else x - 1
      if y < f then s y else s (y + 1))) : Marked s' P (moveIdx f t l) := by
  intro x
  rw [moved, getElem?_moveIdx lt lt']
  by_cases here : x = t
  · simpa only [here, if_pos, ne_eq, not_true, false_and, true_and, or_false] using marked f
  · simp only [here, if_false, ne_eq, not_false_iff, false_and, true_and, false_or]
    split_ifs
    · exact marked _
    · exact marked _
    · exact marked _
    · exact marked _

end Marked

end SpecialtyMap.Position
