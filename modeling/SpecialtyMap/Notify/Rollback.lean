import SpecialtyMap.Log.Reverse
import SpecialtyMap.Notify.Observer

/-!
# Undoing the edits of a list

When a write transaction is rolled back, a list goes back from the values the transaction gave it to
those it had, and the reversed log has the edits that undo those of the transaction, the last one
first. They lead back (`undoAll_run`) unless a row was moved further than to the next place: the
reverser writes the move as it was, and only between neighbours does that move the row back
(`leads_back_iff`).
-/

namespace SpecialtyMap.Notify
open SpecialtyMap.Log SpecialtyMap.Machine SpecialtyMap.Position

namespace Edit
variable {α : Type*}

/-- What an edit makes of the values. -/
def values (l : List α) : Edit α → List α
  | set ndx value => l.set ndx value
  | insert ndx value => insertBlock ndx [value] l
  | erase ndx => l.eraseIdx ndx
  | move f t => moveIdx f t l
  | swap ndx1 ndx2 => swapIdx ndx1 ndx2 l
  | clear => []

/-- The values of a list that was cleared come in again, from this place on. -/
def refill : ℕ → List α → List (Edit α)
  | _, [] => []
  | ndx, value :: l => insert ndx value :: refill (ndx + 1) l

/-- What a reversed log has for an edit of this list, with the values that are put back. -/
def undo (l : List α) : Edit α → List (Edit α)
  | set ndx _ => (l[ndx]?.map (set ndx)).toList
  | insert ndx _ => [erase ndx]
  | erase ndx => (l[ndx]?.map (insert ndx)).toList
  | move f t => [move f t]
  | swap ndx1 ndx2 => [swap ndx1 ndx2]
  | clear => refill 0 l

/-- What a reversed log has for edits of this list, the last one first. -/
def undoAll (l : List α) : List (Edit α) → List (Edit α)
  | [] => []
  | e :: es => undoAll (e.values l) es ++ e.undo l

/-- A row is moved to the next place, if it is moved. -/
def Near : Edit α → Prop
  | move f t => f + 1 = t ∨ t + 1 = f
  | _ => True

instance : (e : Edit α) → Decidable e.Near
  | move f t => inferInstanceAs (Decidable (f + 1 = t ∨ t + 1 = f))
  | set _ _ | insert _ _ | erase _ | swap _ _ | clear => inferInstanceAs (Decidable True)

end Edit

section Values
variable {α : Type*} {rows : List (Row α)} {e : Edit α} {es : List (Edit α)} {l : List α}

lemma values_apply (allowed : e.Allowed rows.length) :
    (e.apply rows).map Row.value = e.values (rows.map Row.value) := by
  cases e with
  | set ndx value =>
    refine List.ext_getElem? fun x => ?_
    rw [Edit.apply, Edit.values, List.getElem?_map, List.getElem?_modify, List.getElem?_set,
      List.length_map]
    have lt : ndx < rows.length := allowed
    by_cases here : ndx = x
    · rw [if_pos here, if_pos lt, ← here, List.getElem?_eq_getElem lt]
      simp [Row.assign]
    · rw [if_neg here, List.getElem?_map]
      simp [here]
  | insert ndx value => simp [Edit.apply, Edit.values, insertBlock, Row.fresh]
  | erase ndx => exact (List.eraseIdx_map ..).symm
  | move f t =>
    refine List.ext_getElem? fun x => ?_
    rw [Edit.apply, Edit.values, List.getElem?_map, getElem?_moveIdx allowed.1 allowed.2.1,
      getElem?_moveIdx (by simpa using allowed.1) (by simpa using allowed.2.1)]
    simp only [List.getElem?_map]
    split_ifs <;> rfl
  | swap m n =>
    refine List.ext_getElem? fun x => ?_
    rw [Edit.apply, Edit.values, List.getElem?_map, getElem?_swapIdx allowed.1 allowed.2.1,
      getElem?_swapIdx (by simpa using allowed.1) (by simpa using allowed.2.1)]
    simp only [List.getElem?_map]
    split_ifs <;> rfl
  | clear => rfl

/-- Rows and values are edited alike. -/
lemma values_run (same : rows.map Row.value = l)
    (allowed : AllSteps Edit.values (fun l e => e.Allowed l.length) l es) :
    AllSteps Edit.apply (fun rows e => e.Allowed rows.length) rows es ∧
      (exec Edit.apply rows es).map Row.value = exec Edit.values l es := by
  induction es generalizing rows l with
  | nil => exact ⟨trivial, same⟩
  | cons e es ih =>
    have first : e.Allowed rows.length := by
      rw [← List.length_map (f := Row.value), same]
      exact allowed.1
    obtain ⟨rest, final⟩ := ih ((values_apply first).trans (congrArg e.values same)) allowed.2
    exact ⟨⟨first, rest⟩, final⟩

end Values

section Undo
variable {α : Type*} {e : Edit α} {es : List (Edit α)} {l : List α} {f t m n : ℕ}

/-- A row that was moved to the next place is moved back by the same move, and
only such a one is. -/
lemma moveIdx_twice (lt : f < l.length) (lt' : t < l.length) (near : f + 1 = t ∨ t + 1 = f) :
    moveIdx f t (moveIdx f t l) = l := by
  have size : (moveIdx f t l).length = l.length := length_moveIdx lt lt'
  refine List.ext_getElem? fun x => ?_
  rw [getElem?_moveIdx (size.symm ▸ lt) (size.symm ▸ lt')]
  simp only [getElem?_moveIdx lt lt']
  grind

lemma swapIdx_twice (lt : m < l.length) (lt' : n < l.length) : swapIdx m n (swapIdx m n l) = l := by
  have size : (swapIdx m n l).length = l.length := by
    rw [swapIdx, List.getElem?_eq_getElem lt, List.getElem?_eq_getElem lt', List.length_set,
      List.length_set]
  refine List.ext_getElem? fun x => ?_
  rw [getElem?_swapIdx (size.symm ▸ lt) (size.symm ▸ lt'), getElem?_swapIdx lt lt',
    getElem?_swapIdx lt lt',
    getElem?_swapIdx lt lt']
  grind

/-- A cleared list is filled again from the front. -/
lemma refill_run (pre l : List α) :
    AllSteps Edit.values (fun l e => e.Allowed l.length) pre (Edit.refill pre.length l) ∧
      exec Edit.values pre (Edit.refill pre.length l) = pre ++ l := by
  induction l generalizing pre with
  | nil => exact ⟨trivial, (List.append_nil pre).symm⟩
  | cons value l ih =>
    have next : Edit.values pre (.insert pre.length value) = pre ++ [value] := by
      rw [Edit.values, insertBlock, List.take_length, List.drop_length, List.append_nil]
    obtain ⟨rest, final⟩ := ih (pre ++ [value])
    rw [List.length_append, List.length_singleton] at rest final
    refine ⟨⟨le_rfl, ?_⟩, ?_⟩
    · rw [next]
      exact rest
    · rw [Edit.refill, exec_cons, next, final, List.append_assoc]
      rfl

/-- An edit is undone by the edits the reversed log has for it, if it moves no row past another. -/
lemma undo_run (allowed : e.Allowed l.length) (near : e.Near) :
    AllSteps Edit.values (fun l e => e.Allowed l.length) (e.values l) (e.undo l) ∧
      exec Edit.values (e.values l) (e.undo l) = l := by
  cases e with
  | set ndx value =>
    have lt : ndx < l.length := allowed
    rw [Edit.undo, List.getElem?_eq_getElem lt]
    refine ⟨⟨?_, trivial⟩, ?_⟩
    · show ndx < (l.set ndx value).length
      rwa [List.length_set]
    · show (l.set ndx value).set ndx l[ndx] = l
      rw [List.set_set, List.set_getElem_self]
  | insert ndx value =>
    have le : ndx ≤ l.length := allowed
    refine ⟨⟨?_, trivial⟩, ?_⟩
    · show ndx < (insertBlock ndx [value] l).length
      rw [length_insertBlock le, List.length_singleton]
      exact Nat.lt_succ_of_le le
    · show (insertBlock ndx [value] l).eraseIdx ndx = l
      have front : (l.take ndx).length = ndx := List.length_take_of_le le
      rw [insertBlock, List.append_assoc, List.eraseIdx_append_of_length_le front.le,
        front, Nat.sub_self]
      exact List.take_append_drop ndx l
  | erase ndx =>
    have lt : ndx < l.length := allowed
    rw [Edit.undo, List.getElem?_eq_getElem lt]
    have front : (l.eraseIdx ndx).take ndx = l.take ndx := by
      rw [List.eraseIdx_eq_take_drop_succ, List.take_append_of_le_length (by simp; omega),
        List.take_take,
        Nat.min_self]
    have back : (l.eraseIdx ndx).drop ndx = l.drop (ndx + 1) := by
      rw [List.eraseIdx_eq_take_drop_succ, List.drop_append_of_le_length (by simp; omega),
        List.drop_take,
        Nat.sub_self, List.take_zero, List.nil_append]
    refine ⟨⟨?_, trivial⟩, ?_⟩
    · show ndx ≤ (l.eraseIdx ndx).length
      rw [List.length_eraseIdx_of_lt lt]
      omega
    · show insertBlock ndx [l[ndx]] (l.eraseIdx ndx) = l
      rw [insertBlock, front, back, List.append_assoc, List.singleton_append,
        ← List.drop_eq_getElem_cons lt,
        List.take_append_drop]
  | move f t =>
    refine ⟨⟨?_, trivial⟩, moveIdx_twice allowed.1 allowed.2.1 near⟩
    show (Edit.move f t).Allowed (moveIdx f t l).length
    rwa [length_moveIdx allowed.1 allowed.2.1]
  | swap m n =>
    refine ⟨⟨?_, trivial⟩, swapIdx_twice allowed.1 allowed.2.1⟩
    show (Edit.swap m n).Allowed (swapIdx m n l).length
    rwa [swapIdx, List.getElem?_eq_getElem allowed.1, List.getElem?_eq_getElem allowed.2.1,
      List.length_set,
      List.length_set]
  | clear => exact refill_run [] l

/-- What the reverser writes for an edit is what the edits that undo it are logged as. -/
lemma inverse_instruction (allowed : e.Allowed l.length) {rows : List (Row α)} :
    (e.instruction l.length).inverse = Edit.log rows (e.undo l) := by
  have fill (k : ℕ) (rows : List (Row α)) :
      (List.range' k l.length).map Instruction.listInsert = Edit.log rows (Edit.refill k l) := by
    clear allowed
    induction l generalizing k rows with
    | nil => rfl
    | cons value l ih =>
      rw [List.length_cons, List.range'_succ, List.map_cons, ih (k + 1)]
      rfl
  cases e with
  | set ndx _ =>
    rw [Edit.undo, List.getElem?_eq_getElem allowed]
    rfl
  | erase ndx =>
    rw [Edit.undo, List.getElem?_eq_getElem allowed]
    rfl
  | insert _ _ | move _ _ | swap _ _ => rfl
  | clear =>
    show (List.range l.length).map _ = _
    rw [List.range_eq_range']
    exact fill 0 rows

/-- The instructions that are read for an edit of a list of distinct values lead back to it exactly
if the edit moves no row past another. -/
theorem leads_back_iff (distinct : l.Nodup) (allowed : e.Allowed l.length) :
    (e.instruction l.length).inverse = Edit.log ((e.values l).map Row.fresh) (e.undo l) ∧
      (exec Edit.values (e.values l) (e.undo l) = l ↔ e.Near) := by
  refine ⟨inverse_instruction allowed, fun back => ?_, fun near => (undo_run allowed near).2⟩
  cases e with
  | move f t =>
    obtain ⟨lt, lt', ne⟩ := allowed
    have size : (moveIdx f t l).length = l.length := length_moveIdx lt lt'
    -- the row that arrives at `t` in the end stood next to `f`
    have arrived : (moveIdx f t l)[f]? = l[t]? := by
      have here := congrArg (fun l : List α => l[t]?) back
      dsimp only [exec, Edit.undo, List.foldl, Edit.values] at here
      rwa [getElem?_moveIdx (size.symm ▸ lt) (size.symm ▸ lt'), if_pos rfl] at here
    rw [getElem?_moveIdx lt lt', if_neg ne] at arrived
    rcases Nat.lt_or_gt_of_ne ne with before | after
    · rw [if_pos before] at arrived
      dsimp only at arrived
      rw [if_neg (Nat.lt_irrefl f)] at arrived
      exact .inl ((List.getElem?_inj (by omega) distinct).mp arrived)
    · rw [if_neg (Nat.not_lt_of_gt after)] at arrived
      dsimp only at arrived
      rw [if_pos (by omega)] at arrived
      have same := (List.getElem?_inj (by omega) distinct).mp arrived
      exact .inr (by omega)
  | _ => trivial

/-- A row that moves past two others does not come back. -/
theorem leads_back_iff_far :
    let e : Edit ℕ := .move 0 2
    (e.instruction 3).inverse = Edit.log ((e.values [0, 1, 2]).map Row.fresh) (e.undo [0, 1, 2]) ∧
      (exec Edit.values (e.values [0, 1, 2]) (e.undo [0, 1, 2]) = [0, 1, 2] ↔ e.Near) :=
  @leads_back_iff ℕ (.move 0 2) [0, 1, 2] (by decide) (by decide)

example : exec Edit.values [0, 1, 2] [.move 0 2, .move 0 2] = [2, 0, 1] := by decide

lemma log_append {rows : List (Row α)} {es es' : List (Edit α)} :
    Edit.log rows (es ++ es') = Edit.log rows es ++ Edit.log (exec Edit.apply rows es) es' := by
  induction es generalizing rows with
  | nil => rfl
  | cons e es ih =>
    rw [List.cons_append, Edit.log, Edit.log, ih]
    rfl

/-- Edits are undone from the last to the first, and the reversed log says so. -/
lemma undoAll_run (allowed : AllSteps Edit.values (fun l e => e.Allowed l.length) l es)
    (near : ∀ e ∈ es, e.Near) :
    AllSteps Edit.values (fun l e => e.Allowed l.length) (exec Edit.values l es)
      (Edit.undoAll l es) ∧
      exec Edit.values (exec Edit.values l es) (Edit.undoAll l es) = l := by
  induction es generalizing l with
  | nil => exact ⟨trivial, rfl⟩
  | cons e es ih =>
    obtain ⟨first, others⟩ := List.forall_mem_cons.mp near
    obtain ⟨allowed', back⟩ := ih allowed.2 others
    obtain ⟨allowed'', back'⟩ := undo_run allowed.1 first
    rw [Edit.undoAll, exec_cons, exec_append, back]
    exact ⟨allSteps_append.mpr ⟨allowed', back.symm ▸ allowed''⟩, back'⟩

lemma log_undoAll {rows rows' : List (Row α)} (same : rows.map Row.value = l)
    (allowed : AllSteps Edit.values (fun l e => e.Allowed l.length) l es) :
    (Edit.log rows es).reverse.flatMap Instruction.inverse = Edit.log rows'
    (Edit.undoAll l es) := by
  induction es generalizing rows l with
  | nil => rfl
  | cons e es ih =>
    have size : rows.length = l.length := by rw [← same, List.length_map]
    have next := (values_apply (size ▸ allowed.1)).trans (congrArg e.values same)
    rw [Edit.log, List.reverse_cons, List.flatMap_append, List.flatMap_singleton,
      ih next allowed.2, size,
      Edit.undoAll, log_append, inverse_instruction allowed.1]

end Undo

/-- The instructions of a log about a table or a list. -/
def about (s : Scope) (log : List Instruction) : List Instruction :=
  (located .nothing log).filterMap fun e => if e.1 = s then some e.2 else none

section About
variable {s : Scope} {log undos : List Instruction}

lemma about_inverse (reversed : located .nothing undos =
      (located .nothing log).reverse.flatMap fun e => e.2.inverse.map (e.1, ·)) :
    about s undos = (about s log).reverse.flatMap Instruction.inverse := by
  have key (es : List (Scope × Instruction)) :
      (es.flatMap fun e => e.2.inverse.map (e.1, ·)).filterMap
      (fun e => if e.1 = s then some e.2 else none) =
        (es.filterMap fun e => if e.1 = s then some e.2 else none).flatMap Instruction.inverse := by
    induction es with
    | nil => rfl
    | cons e es ih =>
      have one : (e.2.inverse.map (e.1, ·)).filterMap
          (fun e => if e.1 = s then some e.2 else none) =
          if e.1 = s then e.2.inverse else [] := by
        rw [List.filterMap_map]
        by_cases here : e.1 = s
        · simp [here]
        · simp [here]
      rw [List.flatMap_cons, List.filterMap_append, ih, one, List.filterMap_cons]
      split_ifs <;> rfl
  rw [about, reversed, key, List.filterMap_reverse]
  rfl

end About

end SpecialtyMap.Notify
