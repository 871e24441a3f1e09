import Mathlib.Data.List.Nodup
import Mathlib.Data.List.Perm.Basic
import Mathlib.Data.List.Range
import Mathlib.Tactic.Common

/-!
# Requests and their answers

A client that issues requests and is answered asynchronously, in any order, once for each request. A
request is a ticket, counted from zero, and an answer carries a value. `answered` is the history of
the answers in the order they arrived.

`Settled` is the bookkeeping invariant: no ticket is lost and none is answered twice. It is kept by
both operations, and once nothing is outstanding every ticket has its one answer.
-/

namespace SpecialtyMap.Machine

/-- The requests of a client, issued, waiting and answered. -/
structure Requests (α : Type*) where
  issued : Nat := 0
  outstanding : List Nat := []
  answered : List (Nat × α) := []

namespace Requests
variable {α : Type*} {r : Requests α}

def issue (r : Requests α) : Requests α :=
  { r with issued := r.issued + 1, outstanding := r.outstanding ++ [r.issued] }

def answer (position : Nat) (a : α) (r : Requests α) : Requests α :=
  match r.outstanding[position]? with
  | some ticket =>
    { r with
      outstanding := r.outstanding.eraseIdx position
      answered := r.answered ++ [(ticket, a)] }
  | none => r

/-- The tickets issued are those answered and those outstanding, each of them once. -/
def Settled (r : Requests α) : Prop :=
  (r.answered.map Prod.fst ++ r.outstanding).Perm (List.range r.issued)

lemma settled_init : Settled ({} : Requests α) := List.Perm.refl _

lemma Settled.issue (inv : r.Settled) : r.issue.Settled := by
  unfold Settled Requests.issue
  rw [List.range_succ, ← List.append_assoc]
  exact inv.append_right _

lemma answer_some {position ticket : Nat} {a : α} (found : r.outstanding[position]? = some ticket) :
    r.answer position a =
      { r with
        outstanding := r.outstanding.eraseIdx position
        answered := r.answered ++ [(ticket, a)] } := by
  rw [answer, found]

lemma answer_none {position : Nat} {a : α} (found : r.outstanding[position]? = none) :
    r.answer position a = r := by
  rw [answer, found]

lemma Settled.answer {position : Nat} {a : α} (inv : r.Settled) :
    (r.answer position a).Settled := by
  cases found : r.outstanding[position]? with
  | none =>
    rw [answer_none found]
    exact inv
  | some ticket =>
    rw [answer_some found]
    obtain ⟨bound, e⟩ := List.getElem?_eq_some_iff.mp found
    -- the ticket leaves the outstanding ones and ends the answered ones
    have moved : (ticket :: r.outstanding.eraseIdx position).Perm r.outstanding := by
      rw [← e]
      exact List.getElem_cons_eraseIdx_perm bound
    have reorder : (r.answered.map Prod.fst ++ [ticket] ++ r.outstanding.eraseIdx position).Perm
        (r.answered.map Prod.fst ++ r.outstanding) := by
      rw [List.append_assoc]
      exact moved.append_left _
    simpa [Settled] using reorder.trans inv

/-- A ticket has one answer at most. -/
lemma Settled.unique (inv : r.Settled) {ticket : Nat} {a b : α} (left : (ticket, a) ∈ r.answered)
    (right : (ticket, b) ∈ r.answered) : a = b := by
  have tickets : (r.answered.map Prod.fst).Nodup :=
    (inv.nodup_iff.mpr List.nodup_range).of_append_left
  have same := List.inj_on_of_nodup_map tickets left right rfl
  exact (Prod.mk.inj same).2

/-- With nothing outstanding every ticket has its answer. -/
lemma Settled.complete (inv : r.Settled) (idle : r.outstanding = []) {ticket : Nat}
    (issued : ticket < r.issued) : ∃ a, (ticket, a) ∈ r.answered := by
  have mem : ticket ∈ r.answered.map Prod.fst := by
    have all := inv.mem_iff.mpr (List.mem_range.mpr issued)
    rwa [idle, List.append_nil] at all
  obtain ⟨⟨_, a⟩, found, rfl⟩ := List.mem_map.mp mem
  exact ⟨a, found⟩

end Requests

end SpecialtyMap.Machine
