import Mathlib.Data.Nat.Count
import Mathlib.Tactic.Common

/-!
# Lists with positions dropped

A set of positions says which elements of a list go. `dropAt` is what is left, and `rank` is where a
position that stays ends up. Two lists are turned into each other by a set of deletions and a set of
insertions when they agree on what is left (`Turns`), which is how a difference between two versions
of a list is recorded without its elements.

Dropping twice is dropping once (`dropAt_dropAt`): a position goes if it goes at first, or if the
rank it is left with goes then. Differences compose by this rule alone (`Turns.compose`).
-/

namespace SpecialtyMap.Position

variable {α : Type*}

/-- What is left of a list without the positions in `p`. -/
def dropAt (p : ℕ → Prop) [DecidablePred p] : List α → List α
  | [] => []
  | a :: l => if p 0 then dropAt (fun x => p (x + 1)) l else a :: dropAt (fun x => p (x + 1)) l

/-- How many positions before this one stay. -/
def rank (p : ℕ → Prop) [DecidablePred p] (x : ℕ) : ℕ := Nat.count (fun y => ¬ p y) x

section Rank
variable {p q : ℕ → Prop} [DecidablePred p] [DecidablePred q] {x y n : ℕ}

@[simp] lemma rank_zero : rank p 0 = 0 := Nat.count_zero _

lemma rank_succ (x : ℕ) : rank p (x + 1) = rank p x + if p x then 0 else 1 := by
  rw [rank, Nat.count_succ, rank]
  by_cases gone : p x <;> simp [gone]

/-- The rank, with the first position counted by itself. -/
lemma rank_succ' (x : ℕ) :
    rank p (x + 1) = rank (fun y => p (y + 1)) x + if p 0 then 0 else 1 := by
  rw [rank, Nat.count_succ', rank]
  by_cases gone : p 0 <;> simp [gone]

lemma rank_mono (le : x ≤ y) : rank p x ≤ rank p y := Nat.count_monotone _ le

lemma rank_lt (stays : ¬ p x) (lt : x < y) : rank p x < rank p y := Nat.count_strict_mono stays lt

lemma rank_inj (stays : ¬ p x) (stays' : ¬ p y) (e : rank p x = rank p y) : x = y :=
  Nat.count_injective stays stays' e

lemma rank_congr (same : ∀ y < x, p y ↔ q y) : rank p x = rank q x := by
  induction x with
  | zero => rfl
  | succ x ih =>
    rw [rank_succ, rank_succ, ih fun y lt => same y (Nat.lt_succ_of_lt lt)]
    simp only [same x (Nat.lt_succ_self x)]

/-- Below the first position that goes every position keeps its place. -/
lemma rank_of_stays (stays : ∀ y < x, ¬ p y) : rank p x = x := Nat.count_of_forall stays

lemma rank_add (x y : ℕ) : rank p (x + y) = rank p x + rank (fun k => p (x + k)) y :=
  Nat.count_add _ x y

lemma rank_of_gone (gone : ∀ y < x, p y) : rank p x = 0 :=
  Nat.count_iff_forall_not.mpr fun y lt stays => stays (gone y lt)

end Rank

section Drop
variable {p q : ℕ → Prop} [DecidablePred p] [DecidablePred q]

@[simp] lemma dropAt_nil : dropAt p ([] : List α) = [] := rfl

lemma dropAt_congr {l : List α} (same : ∀ x < l.length, p x ↔ q x) : dropAt p l = dropAt q l := by
  induction l generalizing p q with
  | nil => rfl
  | cons a l ih =>
    have rest := ih (p := fun x => p (x + 1)) (q := fun x => q (x + 1)) fun x lt =>
      same (x + 1) (Nat.succ_lt_succ lt)
    simp only [dropAt, same 0 (Nat.succ_pos _), rest]

lemma dropAt_stays {l : List α} (stays : ∀ x < l.length, ¬ p x) : dropAt p l = l := by
  induction l generalizing p with
  | nil => rfl
  | cons a l ih =>
    rw [dropAt, if_neg (stays 0 (Nat.succ_pos _))]
    rw [ih fun x lt => stays (x + 1) (Nat.succ_lt_succ lt)]

lemma dropAt_gone {l : List α} (gone : ∀ x < l.length, p x) : dropAt p l = [] := by
  induction l generalizing p with
  | nil => rfl
  | cons a l ih =>
    rw [dropAt, if_pos (gone 0 (Nat.succ_pos _))]
    exact ih fun x lt => gone (x + 1) (Nat.succ_lt_succ lt)

lemma dropAt_append (l l' : List α) :
    dropAt p (l ++ l') = dropAt p l ++ dropAt (fun x => p (l.length + x)) l' := by
  induction l generalizing p with
  | nil => simp
  | cons a l ih =>
    have shift (x : ℕ) : (a :: l).length + x = l.length + x + 1 := Nat.add_right_comm _ _ _
    simp only [List.cons_append, dropAt, ih, shift]
    split <;> rfl

lemma length_dropAt (l : List α) : (dropAt p l).length = rank p l.length := by
  induction l generalizing p with
  | nil => rfl
  | cons a l ih =>
    rw [List.length_cons, rank_succ', ← ih, dropAt]
    split <;> rfl

/-- What goes does not matter. -/
lemma dropAt_eq {l l' : List α} (size : l.length = l'.length) (same : ∀ x, ¬ p x → l[x]? = l'[x]?) :
    dropAt p l = dropAt p l' := by
  induction l generalizing p l' with
  | nil => rw [List.eq_nil_of_length_eq_zero size.symm]
  | cons a l ih =>
    obtain ⟨b, l', rfl⟩ := List.exists_cons_of_length_eq_add_one size.symm
    have rest := @ih (fun x => p (x + 1)) _ l' (Nat.succ.inj size) fun x stays => same (x + 1) stays
    rw [dropAt, dropAt, rest]
    by_cases gone : p 0
    · rw [if_pos gone, if_pos gone]
    · rw [if_neg gone, if_neg gone, Option.some.inj (same 0 gone)]

/-- A position that stays is found at its rank. -/
lemma getElem?_dropAt {l : List α} {x : ℕ} (stays : ¬ p x) : (dropAt p l)[rank p x]? = l[x]? := by
  induction l generalizing p x with
  | nil => rfl
  | cons a l ih =>
    cases x with
    | zero => simp [dropAt, stays]
    | succ x =>
      have rest := ih (p := fun y => p (y + 1)) stays
      rw [rank_succ', dropAt, List.getElem?_cons_succ, ← rest]
      split <;> rfl

/-- Dropping twice is dropping once. -/
lemma dropAt_dropAt (l : List α) : dropAt q (dropAt p l) = dropAt
    (fun x => p x ∨ q (rank p x)) l := by
  induction l generalizing p q with
  | nil => rfl
  | cons a l ih =>
    by_cases gone : p 0
    · have first : ∀ x, rank p (x + 1) = rank (fun y => p (y + 1)) x := fun x => by
        rw [rank_succ', if_pos gone, Nat.add_zero]
      rw [dropAt, if_pos gone, ih, dropAt, if_pos (.inl gone)]
      simp only [first]
    · have first : ∀ x, rank p (x + 1) = rank (fun y => p (y + 1)) x + 1 := fun x => by
        rw [rank_succ', if_neg gone]
      rw [dropAt, if_neg gone, dropAt, ih, dropAt]
      simp only [first, gone, rank_zero, false_or]

/-- Dropping one position erases the element there. -/
lemma dropAt_single (k : ℕ) (l : List α) : dropAt (· = k) l = l.eraseIdx k := by
  induction l generalizing k with
  | nil => rfl
  | cons a l ih =>
    cases k with
    | zero =>
      have rest : dropAt (fun y => y + 1 = 0) l = l := dropAt_stays fun y _ => Nat.succ_ne_zero y
      simpa [dropAt] using rest
    | succ k =>
      have rest := ih k
      simpa [dropAt] using rest

/-- Dropping one more position erases the element it is left at. -/
lemma dropAt_erase {l : List α} {x : ℕ} (stays : ¬ p x) :
    dropAt (fun y => p y ∨ y = x) l = (dropAt p l).eraseIdx (rank p x) := by
  rw [← dropAt_single, dropAt_dropAt]
  refine dropAt_congr fun y _ => ?_
  constructor
  · rintro (gone | rfl)
    · exact .inl gone
    · exact .inr rfl
  · rintro (gone | same)
    · exact .inl gone
    · by_cases gone : p y
      · exact .inl gone
      · exact .inr (rank_inj gone stays same)

end Drop

/-- Without the positions in `p`, the position that `q` takes is left at this rank. -/
def TakenAt (p q : ℕ → Prop) [DecidablePred p] (k : ℕ) : Prop := ∃ m, ¬ p m ∧ q m ∧ rank p m = k

/-- Deleting `d` from the old list and inserting at `i` turns it into the new one. -/
structure Turns (d i : ℕ → Prop) [DecidablePred d] [DecidablePred i] (old new : List α) : Prop where
  kept : dropAt d old = dropAt i new
  deleted : ∀ x, d x → x < old.length
  inserted : ∀ y, i y → y < new.length

namespace Turns
variable {d i d' i' : ℕ → Prop} [DecidablePred d] [DecidablePred i] [DecidablePred d']
  [DecidablePred i'] {old mid new : List α}

lemma refl (l : List α) : Turns (fun _ => False) (fun _ => False) l l := ⟨rfl, nofun, nofun⟩

lemma congr (turns : Turns d i old new) (deleted : ∀ x, d' x ↔ d x) (inserted : ∀ y, i' y ↔ i y) :
    Turns d' i' old new := by
  refine ⟨?_, fun x gone => turns.deleted x ((deleted x).mp gone), fun y gone =>
    turns.inserted y ((inserted y).mp gone)⟩
  rw [dropAt_congr fun x _ => deleted x, dropAt_congr fun y _ => inserted y]
  exact turns.kept

lemma rank_length (turns : Turns d i old new) : rank d old.length = rank i new.length := by
  rw [← length_dropAt, ← length_dropAt, turns.kept]

/-- What stays is found again where it has the same rank. -/
lemma same (turns : Turns d i old new) {x y : ℕ} (stays : ¬ d x) (stays' : ¬ i y)
    (rank : rank d x = rank i y) : old[x]? = new[y]? := by
  rw [← getElem?_dropAt stays, turns.kept, rank, getElem?_dropAt stays']

/-- What a second dropping takes is, before a first one, what it takes at the
ranks that are left. -/
lemma dropAt_later {p q r : ℕ → Prop} [DecidablePred p] [DecidablePred q] [DecidablePred r]
    (both : ∀ x, r x ↔ p x ∨ q (rank p x)) (l : List α) : dropAt r l = dropAt q (dropAt p l) := by
  rw [dropAt_dropAt]
  exact dropAt_congr fun x _ => both x

/-- A difference, then a difference: what the second deletes is deleted from the old list
where it was not inserted by the first, and what the first inserts is inserted where the
second does not delete it. -/
lemma compose {dd ii : ℕ → Prop} [DecidablePred dd] [DecidablePred ii] (first : Turns d i old mid)
    (second : Turns d' i' mid new)
    (deletions : ∀ x, dd x ↔ d x ∨ TakenAt i d' (rank d x))
    (insertions : ∀ y, ii y ↔ i' y ∨ TakenAt d' i (rank i' y)) :
    Turns dd ii old new := by
  classical
  have between (p q : ℕ → Prop) [DecidablePred p] [DecidablePred q] (x : ℕ) :
      p x ∨ q x ↔ p x ∨ TakenAt p q (rank p x) := by
    by_cases gone : p x
    · simp [gone]
    · refine or_congr_right ⟨fun taken => ⟨x, gone, taken, rfl⟩, ?_⟩
      rintro ⟨m, stays, taken, same⟩
      rwa [← rank_inj stays gone same]
  constructor
  · -- both sides are what is left of the list between without `i` and without `d'`
    have left := dropAt_later (q := TakenAt i d') deletions old
    have right := dropAt_later (q := TakenAt d' i) insertions new
    rw [left, right, first.kept, ← second.kept, ← dropAt_later (between i d') mid,
      ← dropAt_later (between d' i) mid]
    exact dropAt_congr fun x _ => or_comm
  · intro x gone
    rcases (deletions x).mp gone with gone | ⟨m, stays, gone, same⟩
    · exact first.deleted x gone
    · have lt := rank_lt stays (second.deleted m gone)
      rw [same, ← first.rank_length] at lt
      by_contra ge
      exact absurd (rank_mono (Nat.le_of_not_lt ge)) (Nat.not_le_of_lt lt)
  · intro y gone
    rcases (insertions y).mp gone with gone | ⟨m, stays, gone, same⟩
    · exact second.inserted y gone
    · have lt := rank_lt stays (first.inserted m gone)
      rw [same, second.rank_length] at lt
      by_contra ge
      exact absurd (rank_mono (Nat.le_of_not_lt ge)) (Nat.not_le_of_lt lt)

/-- A deletion and an insertion of the same element at the same rank need not be made. -/
lemma cancel {x y : ℕ} (turns : Turns (fun z => d z ∨ z = x) (fun z => i z ∨ z = y) old new)
    (stays : ¬ d x) (stays' : ¬ i y) (rank : rank d x = rank i y) (same : old[x]? = new[y]?) :
    Turns d i old new := by
  have kept := turns.kept
  rw [dropAt_erase stays, dropAt_erase stays', ← rank] at kept
  refine ⟨?_, fun z gone => turns.deleted z (.inl gone), fun z gone => turns.inserted z (.inl gone)⟩
  have bound : Position.rank d x < (dropAt d old).length := by
    rw [length_dropAt]
    exact rank_lt stays (turns.deleted x (.inr rfl))
  have bound' : Position.rank d x < (dropAt i new).length := by
    rw [length_dropAt, rank]
    exact rank_lt stays' (turns.inserted y (.inr rfl))
  have here : (dropAt d old)[Position.rank d x]? = (dropAt i new)[Position.rank d x]? := by
    rw [getElem?_dropAt stays, rank, getElem?_dropAt stays', same]
  generalize Position.rank d x = k at *
  have put (l : List α) (bound : k < l.length) : (l.eraseIdx k).insertIdx k l[k] = l := by
    exact List.insertIdx_eraseIdx_getElem bound
  rw [← put _ bound, ← put _ bound', kept]
  rw [List.getElem?_eq_getElem bound, List.getElem?_eq_getElem bound'] at here
  rw [Option.some.inj here]

end Turns

end SpecialtyMap.Position
