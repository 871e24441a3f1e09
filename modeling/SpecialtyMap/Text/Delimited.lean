import Mathlib.Data.List.Basic
import Mathlib.Tactic.Common

/-!
# Delimited text

Fields written one after the other with a separator between them. A field that does not contain the
separator can be cut off again in one way only (`cut_unique`), so the text determines a given number
of such fields and what follows the last separator (`joinFields_inj`).
-/

namespace SpecialtyMap.Text

variable {α : Type*}

/-- A field free of the separator is determined by the text it begins. -/
lemma cut_unique {sep : α} {xs ys as bs : List α} (freeX : sep ∉ xs) (freeY : sep ∉ ys)
    (e : xs ++ sep :: as = ys ++ sep :: bs) : xs = ys ∧ as = bs := by
  induction xs generalizing ys with
  | nil =>
    cases ys with
    | nil => simpa using e
    | cons y ys =>
      -- the separator would open the field `y :: ys`
      injection e with head _
      exact absurd (head ▸ List.mem_cons_self) freeY
  | cons x xs ih =>
    cases ys with
    | nil =>
      injection e with head _
      exact absurd (head ▸ List.mem_cons_self) freeX
    | cons y ys =>
      injection e with head tail
      have freeX' : sep ∉ xs := fun mem => freeX (List.mem_cons_of_mem _ mem)
      have freeY' : sep ∉ ys := fun mem => freeY (List.mem_cons_of_mem _ mem)
      obtain ⟨rfl, rfl⟩ := ih freeX' freeY' tail
      exact ⟨by rw [head], rfl⟩

/-- Fields, each closed by a separator, and what follows the last one. -/
def joinFields (sep : α) (fields : List (List α)) (rest : List α) : List α :=
  fields.foldr (fun field text => field ++ sep :: text) rest

lemma joinFields_inj {sep : α} {xs ys : List (List α)} {as bs : List α}
    (len : xs.length = ys.length) (freeX : ∀ x ∈ xs, sep ∉ x) (freeY : ∀ y ∈ ys, sep ∉ y)
    (e : joinFields sep xs as = joinFields sep ys bs) : xs = ys ∧ as = bs := by
  induction xs generalizing ys with
  | nil =>
    cases ys with
    | nil => exact ⟨rfl, e⟩
    | cons y ys => cases len
  | cons x xs ih =>
    cases ys with
    | nil => cases len
    | cons y ys =>
      obtain ⟨rfl, tail⟩ := cut_unique (freeX x List.mem_cons_self) (freeY y List.mem_cons_self) e
      have freeX' : ∀ x ∈ xs, sep ∉ x := fun x mem => freeX x (List.mem_cons_of_mem _ mem)
      have freeY' : ∀ y ∈ ys, sep ∉ y := fun y mem => freeY y (List.mem_cons_of_mem _ mem)
      obtain ⟨rfl, rfl⟩ := ih (Nat.succ.inj len) freeX' freeY' tail
      exact ⟨rfl, rfl⟩

end SpecialtyMap.Text
