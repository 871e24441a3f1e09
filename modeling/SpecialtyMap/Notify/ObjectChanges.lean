import Mathlib.Data.Finset.Basic
import Mathlib.Data.Finset.Filter
import Mathlib.Data.Finset.Insert
import Mathlib.Logic.Function.Basic
import SpecialtyMap.Log.Instruction

/-!
# Changes of the objects of a table

`ObjectChangeSet` collects the keys of the objects of a table that came in and that are gone, and
the columns in which the others were modified. An object is new if it was created since the table
was last reported, also when it has the key of one that was deleted; what becomes of new objects is
not reported but for their insertion. After `clear_table` every key is taken for deleted that no new
object has.
-/

namespace SpecialtyMap.Notify
open SpecialtyMap.Log SpecialtyMap.Machine

/-- The modifications are pairs of an object and a column. -/
structure ObjectChangeSet where
  deletions : Finset ℤ := ∅
  insertions : Finset ℤ := ∅
  modifications : Finset (ℤ × ℤ) := ∅
  clearDidOccur : Bool := false
deriving DecidableEq

namespace ObjectChangeSet
variable (cs : ObjectChangeSet)

def insertionsAdd (obj : ℤ) : ObjectChangeSet := { cs with insertions := insert obj cs.insertions }

/-- Modifications of new objects are not reported. -/
def modificationsAdd (obj col : ℤ) : ObjectChangeSet :=
  if obj ∈ cs.insertions then cs
  else { cs with modifications := insert (obj, col) cs.modifications }

def modificationsRemove (obj : ℤ) : ObjectChangeSet :=
  { cs with modifications := cs.modifications.filter (·.1 ≠ obj) }

def deletionsAdd (obj : ℤ) : ObjectChangeSet :=
  let cs := cs.modificationsRemove obj
  if obj ∈ cs.insertions then { cs with insertions := cs.insertions.erase obj }
  else { cs with deletions := insert obj cs.deletions }

def clear : ObjectChangeSet := { clearDidOccur := true }

/-- Whether there was an insertion, and the changes without it. -/
def insertionsRemove (obj : ℤ) : Bool × ObjectChangeSet :=
  (decide (obj ∈ cs.insertions), { cs with insertions := cs.insertions.erase obj })

def deletionsContains (obj : ℤ) : Bool :=
  if cs.clearDidOccur then decide (obj ∉ cs.insertions) else decide (obj ∈ cs.deletions)

def empty : Bool :=
  decide (cs.deletions = ∅ ∧ cs.insertions = ∅ ∧ cs.modifications = ∅) && !cs.clearDidOccur

/-- The instructions for the active table. A list is selected to be edited, which
modifies its object. -/
def handle : Instruction → ObjectChangeSet
  | .createObject key => cs.insertionsAdd key
  | .removeObject key =>
    let (removed, cs) := cs.insertionsRemove key
    let cs := if removed then cs else cs.deletionsAdd key
    cs.modificationsRemove key
  | .set col key | .selectList col key => cs.modificationsAdd key col
  | .clearTable _ => clear
  | _ => cs

end ObjectChangeSet

/-- An object: whether it was created since the table was last reported, and the
columns assigned to. -/
structure Obj where
  fresh : Bool
  touched : Finset ℤ

/-- The objects of a table by their keys. -/
abbrev Objects := ℤ → Option Obj

namespace Objects

def Allowed (objs : Objects) : Instruction → Prop
  | .createObject key => objs key = none
  | .removeObject key | .set _ key | .selectList _ key => objs key ≠ none
  | _ => True

def apply (objs : Objects) : Instruction → Objects
  | .createObject key => Function.update objs key (some ⟨true, ∅⟩)
  | .removeObject key => Function.update objs key none
  | .set col key | .selectList col key =>
    Function.update objs key ((objs key).map fun obj =>
      { obj with touched := insert col obj.touched })
  | .clearTable _ => fun _ => none
  | _ => objs

/-- The objects when they were last reported. -/
def reported (old : ℤ → Prop) [DecidablePred old] : Objects := fun key =>
  if old key then some ⟨false, ∅⟩ else none

/-- There is an object with this key that was there before. -/
def Stayed (objs : Objects) (key : ℤ) : Prop := ∃ obj ∈ objs key, obj.fresh = false

end Objects

/-- What a change set says of a table that had these objects. -/
structure ReportsObjects (cs : ObjectChangeSet) (old : ℤ → Prop) (objs : Objects) : Prop where
  inserted : ∀ key, key ∈ cs.insertions ↔ ∃ obj ∈ objs key, obj.fresh = true
  modified : ∀ key col, (key, col) ∈ cs.modifications ↔
    ∃ obj ∈ objs key, obj.fresh = false ∧ col ∈ obj.touched
  deleted : ∀ key, key ∈ cs.deletions ↔ cs.clearDidOccur = false ∧ old key ∧ ¬ objs.Stayed key
  cleared : cs.clearDidOccur = true → ∀ key, ¬ objs.Stayed key
  stayed : ∀ key, objs.Stayed key → old key

namespace ReportsObjects
variable {cs : ObjectChangeSet} {old : ℤ → Prop} {objs : Objects} {key col : ℤ} {i : Instruction}

lemma init [DecidablePred old] : ReportsObjects {} old (.reported old) := by
  have stayed (key : ℤ) : (Objects.reported old).Stayed key ↔ old key := by
    rw [Objects.Stayed, Objects.reported]
    by_cases there : old key
    · rw [if_pos there]
      exact iff_of_true ⟨_, rfl, rfl⟩ there
    · rw [if_neg there]
      exact iff_of_false (fun ⟨_, mem, _⟩ => Option.not_mem_none _ mem) there
  have same {key : ℤ} {obj : Obj} (mem : obj ∈ Objects.reported old key) : obj = ⟨false, ∅⟩ := by
    rw [Objects.reported] at mem
    split_ifs at mem
    · exact (Option.some.inj mem).symm
    · cases mem
  refine ⟨fun key => ?_, fun key col => ?_, fun key => ?_, fun clear => ?_,
    fun key => (stayed key).mp⟩
  · refine iff_of_false (Finset.notMem_empty _) fun ⟨obj, mem, fresh⟩ => ?_
    rw [same mem] at fresh
    cases fresh
  · refine iff_of_false (Finset.notMem_empty _) fun ⟨obj, mem, _, touched⟩ => ?_
    rw [same mem] at touched
    exact Finset.notMem_empty _ touched
  · rw [stayed]
    exact iff_of_false (Finset.notMem_empty _) fun gone => gone.2.2 gone.2.1
  · cases clear

/-- An old object is reported deleted exactly if it is gone, and, once the table was cleared, no
new one has its key. -/
lemma deletionsContains_iff (reports : ReportsObjects cs old objs) (there : old key) :
    cs.deletionsContains key = true ↔
      ¬ objs.Stayed key ∧ (cs.clearDidOccur = true → objs key = none) := by
  rw [ObjectChangeSet.deletionsContains]
  by_cases clear : cs.clearDidOccur = true
  · rw [if_pos clear, decide_eq_true_iff, reports.inserted]
    have gone := reports.cleared clear key
    refine ⟨fun absent => ⟨gone, fun _ => ?_⟩, fun ⟨_, vacant⟩ ⟨obj, mem, _⟩ => ?_⟩
    · refine Option.eq_none_iff_forall_not_mem.mpr fun obj mem => ?_
      cases fresh : obj.fresh with
      | true => exact absent ⟨obj, mem, fresh⟩
      | false => exact gone ⟨obj, mem, fresh⟩
    · rw [vacant clear] at mem
      cases mem
  · rw [if_neg clear, decide_eq_true_iff, reports.deleted, Bool.eq_false_iff]
    exact ⟨fun gone => ⟨gone.2.2, fun clear' => absurd clear' clear⟩,
      fun gone => ⟨clear, there, gone.1⟩⟩

/-- An object comes in. -/
lemma create (reports : ReportsObjects cs old objs) (vacant : objs key = none) :
    ReportsObjects (cs.insertionsAdd key) old (objs.apply (.createObject key)) := by
  have stayed (k : ℤ) : (objs.apply (.createObject key)).Stayed k ↔ objs.Stayed k := by
    rw [Objects.Stayed, Objects.Stayed, Objects.apply]
    by_cases here : k = key
    · rw [here, Function.update_self, vacant]
      simp
    · rw [Function.update_of_ne here]
  refine ⟨fun k => ?_, fun k col => ?_, fun k => ?_, fun clear k => ?_, fun k => ?_⟩
  · refine Finset.mem_insert.trans ?_
    rw [Objects.apply]
    by_cases here : k = key
    · rw [here, Function.update_self]
      exact iff_of_true (.inl rfl) ⟨_, rfl, rfl⟩
    · rw [Function.update_of_ne here, ← reports.inserted]
      exact or_iff_right here
  · refine (reports.modified k col).trans ?_
    rw [Objects.apply]
    by_cases here : k = key
    · rw [here, Function.update_self, vacant]
      simp
    · rw [Function.update_of_ne here]
  · rw [stayed]
    exact reports.deleted k
  · rw [stayed]
    exact reports.cleared clear k
  · rw [stayed]
    exact reports.stayed k

/-- An object goes. -/
lemma remove (reports : ReportsObjects cs old objs) (there : objs key ≠ none) :
    ReportsObjects (cs.handle (.removeObject key)) old (objs.apply (.removeObject key)) := by
  have stayed (k : ℤ) : (objs.apply (.removeObject key)).Stayed k ↔ k ≠ key ∧ objs.Stayed k := by
    rw [Objects.Stayed, Objects.Stayed, Objects.apply]
    by_cases here : k = key
    · rw [here, Function.update_self]
      simp
    · rw [Function.update_of_ne here]
      exact (and_iff_right here).symm
  -- either the object was new, or it is an old one, which did not stay
  have changes : cs.handle (.removeObject key) =
      { cs with
        insertions := cs.insertions.erase key
        modifications := cs.modifications.filter (·.1 ≠ key)
        deletions := if key ∈ cs.insertions then cs.deletions else insert key cs.deletions } := by
    by_cases fresh : key ∈ cs.insertions
    · simp [ObjectChangeSet.handle, ObjectChangeSet.insertionsRemove,
        ObjectChangeSet.modificationsRemove, fresh]
    · simp [ObjectChangeSet.handle, ObjectChangeSet.insertionsRemove,
        ObjectChangeSet.modificationsRemove,
        ObjectChangeSet.deletionsAdd, fresh]
  have fresh_iff : key ∈ cs.insertions ↔ ¬ objs.Stayed key := by
    obtain ⟨obj, some⟩ := Option.ne_none_iff_exists'.mp there
    rw [reports.inserted, Objects.Stayed, some]
    simp
  rw [changes]
  refine ⟨fun k => ?_, fun k col => ?_, fun k => ?_, fun clear k => ?_, fun k => ?_⟩
  · refine Finset.mem_erase.trans ?_
    rw [Objects.apply]
    by_cases here : k = key
    · rw [here, Function.update_self]
      simp
    · rw [Function.update_of_ne here, reports.inserted]
      exact and_iff_right here
  · refine Finset.mem_filter.trans ?_
    rw [Objects.apply]
    by_cases here : k = key
    · rw [here, Function.update_self]
      simp
    · rw [Function.update_of_ne here, reports.modified]
      exact and_iff_left here
  · rw [stayed]
    dsimp only
    by_cases fresh : key ∈ cs.insertions
    · rw [if_pos fresh, reports.deleted]
      have gone := fresh_iff.mp fresh
      refine and_congr_right fun _ => and_congr_right fun _ => not_congr ?_
      exact ⟨fun stays => ⟨fun here => gone (here ▸ stays), stays⟩, And.right⟩
    · rw [if_neg fresh, Finset.mem_insert, reports.deleted]
      have stays : objs.Stayed key := not_not.mp (mt fresh_iff.mpr fresh)
      have running : cs.clearDidOccur = false := by
        by_contra cleared
        exact reports.cleared (Bool.eq_true_of_not_eq_false cleared) key stays
      have there' := reports.stayed key stays
      by_cases here : k = key
      · rw [here]
        exact iff_of_true (.inl rfl) ⟨running, there', fun both => both.1 rfl⟩
      · simp [here]
  · rw [stayed]
    exact fun stays => reports.cleared clear k stays.2
  · rw [stayed]
    exact fun stays => reports.stayed k stays.2

/-- An object is assigned to, or a list of it is going to be edited. -/
lemma modify (reports : ReportsObjects cs old objs) (there : objs key ≠ none) :
    ReportsObjects (cs.modificationsAdd key col) old (objs.apply (.set col key)) := by
  have found {k : ℤ} {P : Obj → Prop} (kept : ∀ obj col, P
      { obj with touched := insert col obj.touched } ↔ P obj) :
      (∃ obj ∈ objs.apply (.set col key) k, P obj) ↔ ∃ obj ∈ objs k, P obj := by
    rw [Objects.apply]
    by_cases here : k = key
    · rw [here, Function.update_self]
      simp [kept]
    · rw [Function.update_of_ne here]
  have stayed (k : ℤ) : (objs.apply (.set col key)).Stayed k ↔ objs.Stayed k :=
    found fun _ _ => Iff.rfl
  have same : (cs.modificationsAdd key col).insertions = cs.insertions ∧
      (cs.modificationsAdd key col).deletions = cs.deletions ∧
      (cs.modificationsAdd key col).clearDidOccur = cs.clearDidOccur := by
    rw [ObjectChangeSet.modificationsAdd]
    split_ifs <;> exact ⟨rfl, rfl, rfl⟩
  refine ⟨fun k => ?_, fun k c => ?_, fun k => ?_, fun clear k => ?_, fun k => ?_⟩
  · rw [same.1, reports.inserted]
    exact (found fun _ _ => Iff.rfl).symm
  · obtain ⟨obj, some⟩ := Option.ne_none_iff_exists'.mp there
    have fresh_iff : key ∈ cs.insertions ↔ obj.fresh = true := by
      rw [reports.inserted, some]
      simp
    rw [ObjectChangeSet.modificationsAdd, Objects.apply]
    by_cases here : k = key
    · rw [here, Function.update_self, some]
      by_cases fresh : key ∈ cs.insertions
      · rw [if_pos fresh, reports.modified, some]
        simp [fresh_iff.mp fresh]
      · rw [if_neg fresh, Finset.mem_insert, reports.modified, some]
        simp [Bool.eq_false_iff.mpr (mt fresh_iff.mpr fresh)]
    · rw [Function.update_of_ne here, ← reports.modified]
      split_ifs
      · rfl
      · exact Finset.mem_insert.trans (or_iff_right fun eq => here (congrArg Prod.fst eq))
  · rw [same.2.1, same.2.2, stayed]
    exact reports.deleted k
  · rw [stayed]
    exact reports.cleared (same.2.2 ▸ clear) k
  · rw [stayed]
    exact reports.stayed k

/-- All objects go. -/
lemma clear : ReportsObjects (ObjectChangeSet.clear) old (fun _ => none) := by
  have gone (key : ℤ) : ¬ Objects.Stayed (fun _ => none) key :=
    fun ⟨_, mem, _⟩ => Option.not_mem_none _ mem
  refine ⟨fun key => ?_, fun key col => ?_, fun key => ?_, fun _ => gone,
    fun key stays => absurd stays (gone key)⟩
  · exact iff_of_false (Finset.notMem_empty _) fun ⟨_, mem, _⟩ => Option.not_mem_none _ mem
  · exact iff_of_false (Finset.notMem_empty _) fun ⟨_, mem, _⟩ => Option.not_mem_none _ mem
  · exact iff_of_false (Finset.notMem_empty _) fun running => Bool.noConfusion running.1

/-- Whatever is done to the objects, what is said of the table stays right. -/
lemma step (reports : ReportsObjects cs old objs) (allowed : objs.Allowed i) :
    ReportsObjects (cs.handle i) old (objs.apply i) := by
  cases i with
  | createObject _ => exact reports.create allowed
  | removeObject _ => exact reports.remove allowed
  | set _ _ | selectList _ _ => exact reports.modify allowed
  | clearTable _ => exact clear
  | insertGroupLevelTable _ | eraseGroupLevelTable _ | renameGroupLevelTable _ | selectTable _
  | insertColumn _ | eraseColumn _ | renameColumn _ | setLinkType _ | listInsert _ | listSet _
    | listMove _ _
  | listSwap _ _ | listErase _ | listClear _ => exact reports

lemma run {is : List Instruction} (reports : ReportsObjects cs old objs)
    (allowed : AllSteps Objects.apply Objects.Allowed objs is) :
    ReportsObjects (exec ObjectChangeSet.handle cs is) old (exec Objects.apply objs is) := by
  induction is generalizing cs objs with
  | nil => exact reports
  | cons i is ih => exact ih (reports.step allowed.1) allowed.2

end ReportsObjects

end SpecialtyMap.Notify
