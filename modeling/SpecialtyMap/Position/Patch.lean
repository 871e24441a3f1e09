import SpecialtyMap.Position.Edit
import SpecialtyMap.Position.Ranges

/-!
# Patching a list

How one who holds the old list makes the new one from a difference: the deleted ranges are erased,
the last one first, then the inserted rows are put in one by one, the first one first, and the
modified rows are replaced. Erasing is `dropAt`, and inserting undoes it, so the result is the new
list (`patch_eq`).
-/

namespace SpecialtyMap.Position

variable {α : Type*}

/-- Ranges are erased from the last to the first. -/
def eraseRanges (rs : List Range) (l : List α) : List α :=
  rs.foldr (fun r l => l.take r.first ++ l.drop r.second) l

/-- The elements of another list at these positions are put in. -/
def insertFrom (new : List α) (xs : List ℕ) (l : List α) : List α :=
  xs.foldl (fun l x => match new[x]? with
    | none => l
    | some a => l.insertIdx x a) l

/-- The elements at these positions become those of another list. -/
def replaceFrom (new : List α) (xs : List ℕ) (l : List α) : List α :=
  xs.foldl (fun l x => match new[x]? with
    | none => l
    | some a => l.set x a) l

section Patch
variable {rs : List Range} {xs : List ℕ} {l new : List α} {r : Range} {x y : ℕ}

lemma dropAt_front (n : ℕ) : dropAt (· < n) l = l.drop n := by
  induction l generalizing n with
  | nil => simp
  | cons a l ih =>
    cases n with
    | zero => exact dropAt_stays fun x _ => Nat.not_lt_zero x
    | succ n =>
      rw [dropAt, if_pos (Nat.succ_pos n), List.drop_succ_cons, ← ih]
      exact dropAt_congr fun x _ => Nat.succ_lt_succ_iff

lemma erase_range (le : r.first ≤ r.second) :
    l.take r.first ++ l.drop r.second = dropAt (fun x => r.first ≤ x ∧ x < r.second) l := by
  have front : dropAt (fun x => r.first ≤ x ∧ x < r.second) (l.take r.first) = l.take r.first :=
    dropAt_stays fun x lt => by
      rw [List.length_take] at lt
      omega
  have rest : dropAt (fun x => r.first ≤ r.first + x ∧ r.first + x < r.second) (l.drop r.first) =
      l.drop r.second := by
    have shifted (x : ℕ) : (r.first ≤ r.first + x ∧ r.first + x < r.second) ↔
        x < r.second - r.first := by
      omega
    calc dropAt (fun x => r.first ≤ r.first + x ∧ r.first + x < r.second) (l.drop r.first)
      _ = dropAt (· < r.second - r.first) (l.drop r.first) := dropAt_congr fun x _ => shifted x
      _ = (l.drop r.first).drop (r.second - r.first) := dropAt_front _
      _ = l.drop r.second := by rw [List.drop_drop, Nat.add_sub_cancel' le]
  rcases Nat.le_total r.first l.length with within | past
  · have cut := @dropAt_append α (fun x => r.first ≤ x ∧ x < r.second) _ (l.take r.first)
      (l.drop r.first)
    rw [List.length_take_of_le within, rest, front, List.take_append_drop] at cut
    exact cut.symm
  · rw [List.take_of_length_le past, List.drop_of_length_le (past.trans le), List.append_nil]
    have whole : dropAt (fun x => r.first ≤ x ∧ x < r.second) l = l :=
      dropAt_stays fun x lt => by omega
    exact whole.symm

/-- Erasing the ranges takes their positions. -/
lemma eraseRanges_eq (valid : Valid rs) : eraseRanges rs l = dropAt (Contains rs) l := by
  induction rs with
  | nil => exact (dropAt_stays fun _ _ => contains_nil).symm
  | cons r rs ih =>
    obtain ⟨head, beyond, tail⟩ := valid_cons.mp valid
    rw [eraseRanges, List.foldr_cons, ← eraseRanges, ih tail, erase_range head.le, dropAt_dropAt]
    -- the ranges after this one move none of its positions
    have low (x : ℕ) (lt : x < r.second) : rank (Contains rs) x = x :=
      rank_of_lt fun b mem => (lt.trans (beyond b mem)).le
    have high (x : ℕ) (ge : r.second ≤ x) : r.second ≤ rank (Contains rs) x := by
      have last := rank_mono (p := Contains rs) ge
      rwa [rank_of_lt fun b mem => (beyond b mem).le] at last
    refine dropAt_congr fun x _ => ?_
    rw [contains_cons]
    rcases Nat.lt_or_ge x r.second with before | after
    · rw [low x before]
      tauto
    · have out := high x after
      simp [Nat.not_lt_of_ge after, Nat.not_lt_of_ge out]

lemma dropAt_set {p : ℕ → Prop} [DecidablePred p] {a : α} (stays : ¬ p x) :
    (dropAt p l).set (rank p x) a = dropAt p (l.set x a) := by
  induction l generalizing p x with
  | nil => rfl
  | cons b l ih =>
    cases x with
    | zero => simp [dropAt, stays]
    | succ x =>
      have rest := ih (p := fun y => p (y + 1)) stays
      rw [rank_succ', List.set_cons_succ, dropAt, dropAt, ← rest]
      split <;> rfl

/-- Putting elements in at the positions that were dropped replaces those that were there. -/
lemma insertFrom_dropAt {mid : List α} (size : mid.length = new.length)
    (sorted : xs.Pairwise (· < ·))
    (bound : ∀ x ∈ xs, x < new.length) :
    (insertFrom new xs (dropAt (· ∈ xs) mid))[y]? = if y ∈ xs then new[y]? else mid[y]? := by
  induction xs generalizing mid with
  | nil =>
    rw [if_neg List.not_mem_nil]
    exact congrArg (·[y]?) (dropAt_stays fun _ _ => List.not_mem_nil)
  | cons x xs ih =>
    obtain ⟨first, rest⟩ := List.pairwise_cons.mp sorted
    obtain ⟨here, others⟩ := List.forall_mem_cons.mp bound
    have out : x ∉ xs := fun mem => Nat.lt_irrefl x (first x mem)
    have low : rank (· ∈ xs) x = x := rank_of_stays fun y lt mem => Nat.lt_asymm lt (first y mem)
    have gone : dropAt (· ∈ x :: xs) mid = (dropAt (· ∈ xs) mid).eraseIdx x := by
      have erased := @dropAt_erase α (· ∈ xs) _ mid x out
      rw [low] at erased
      rw [← erased]
      exact dropAt_congr fun y _ => List.mem_cons.trans or_comm
    have put : (dropAt (· ∈ x :: xs) mid).insertIdx x new[x] = dropAt (· ∈ xs)
        (mid.set x new[x]) := by
      have set := @dropAt_set α mid x (· ∈ xs) _ new[x] out
      rw [low] at set
      have bound' : x < (dropAt (· ∈ xs) mid).length := by
        have lt := @rank_lt (· ∈ xs) _ x mid.length out (size ▸ here)
        rwa [low, ← length_dropAt] at lt
      rw [gone, ← set, List.insertIdx_eraseIdx_self bound'.ne]
    rw [insertFrom, List.foldl_cons, ← insertFrom, List.getElem?_eq_getElem here]
    dsimp only
    rw [put, ih (by rw [List.length_set, size]) rest others, List.getElem?_set]
    simp only [List.mem_cons]
    by_cases same : y = x
    · have bound' : x < mid.length := size ▸ here
      simp [same, bound', List.getElem?_eq_getElem here]
    · have other : ¬ x = y := fun e => same e.symm
      simp [same, other]

lemma getElem?_replaceFrom (size : l.length = new.length) :
    (replaceFrom new xs l)[y]? = if y ∈ xs then new[y]? else l[y]? := by
  induction xs generalizing l with
  | nil => rw [if_neg List.not_mem_nil, replaceFrom, List.foldl_nil]
  | cons x xs ih =>
    rw [replaceFrom, List.foldl_cons, ← replaceFrom]
    cases here : new[x]? with
    | none =>
      dsimp only
      rw [ih size]
      by_cases same : y = x
      · have none' : l[x]? = none := by
          rw [List.getElem?_eq_none_iff] at here ⊢
          rwa [size]
        simp [same, here, none']
      · simp [same]
    | some a =>
      dsimp only
      rw [ih (by rw [List.length_set, size]), List.getElem?_set]
      by_cases same : y = x
      · have bound : x < l.length := by
          rw [size]
          exact (List.getElem?_eq_some_iff.mp here).1
        simp [same, here, bound]
      · have other : ¬ x = y := fun e => same e.symm
        simp [same, other]

/-- The old list is patched into the new one, if it has the new elements where it is neither
inserted nor modified. -/
lemma patch_eq {i : ℕ → Prop} [DecidablePred i] {old mid : List α} {mods : List ℕ}
    (valid : Valid rs)
    (turns : Turns (Contains rs) i old mid) (size : mid.length = new.length)
    (sorted : xs.Pairwise (· < ·)) (inserted : ∀ y, y ∈ xs ↔ i y)
    (same : ∀ y, ¬ i y → y ∉ mods → mid[y]? = new[y]?) :
    replaceFrom new mods (insertFrom new xs (eraseRanges rs old)) = new := by
  have left : eraseRanges rs old = dropAt (· ∈ xs) mid := by
    rw [eraseRanges_eq valid, turns.kept]
    exact dropAt_congr fun y _ => (inserted y).symm
  have bound : ∀ x ∈ xs, x < new.length :=
    fun x mem => size ▸ turns.inserted x ((inserted x).mp mem)
  have put (y : ℕ) := @insertFrom_dropAt α xs new y mid size sorted bound
  have size' : (insertFrom new xs (dropAt (· ∈ xs) mid)).length = new.length := by
    refine eq_of_forall_ge_iff fun y => ?_
    rw [← List.getElem?_eq_none_iff, put, ← List.getElem?_eq_none_iff]
    split_ifs
    · rfl
    · rw [List.getElem?_eq_none_iff, List.getElem?_eq_none_iff, size]
  refine List.ext_getElem? fun y => ?_
  rw [left, getElem?_replaceFrom size', put]
  split_ifs with modified inserts
  · rfl
  · rfl
  · exact same y (fun mem => inserts ((inserted y).mpr mem)) modified

end Patch

end SpecialtyMap.Position
