import SpecialtyMap.Notify.KeyValue
import SpecialtyMap.Notify.Transaction

/-!
# Observed objects

`KVOAdapter` observes objects for Cocoa. It has a transaction observed with their tables and all
their lists, and before the transaction takes effect tells of every object what becomes of it: that
it goes, or which of its columns change, and of a list how.

What it finds out of the tables and what it finds out of the lists has to go together, which it
asserts: the column of a list with changes is one that the table has modified, because a list is
selected before it is edited (`selected_of_about`), and what was selected stays modified as long as
the object does (`Objects.stayed_run`). In a build for debugging it also asserts that an object of
whose columns nothing is told goes, and that fails of one that was cleared away with its table when
a new object has its key (`observers_told`).
-/

namespace SpecialtyMap.Notify
open SpecialtyMap.Log SpecialtyMap.Machine SpecialtyMap.Position

namespace ObjectChangeSet

/-- The columns in which an object was modified. -/
def getColumnsModified (cs : ObjectChangeSet) (obj : ℤ) : Finset ℤ :=
  (cs.modifications.filter (·.1 = obj)).image Prod.snd

lemma mem_getColumnsModified {cs : ObjectChangeSet} {obj col : ℤ} :
    col ∈ cs.getColumnsModified obj ↔ (obj, col) ∈ cs.modifications := by
  simp [getColumnsModified]

end ObjectChangeSet

/-- The map from columns to their changes that an observer is given. -/
structure ColumnChanges where
  cols : Finset ℤ := ∅
  info : ℤ → ColumnInfo := fun _ => {}

namespace ColumnChanges

def find (cs : ColumnChanges) (col : ℤ) : Option ColumnInfo :=
  if col ∈ cs.cols then some (cs.info col) else none

def erase (cs : ColumnChanges) (col : ℤ) : ColumnChanges :=
  ⟨cs.cols.erase col, Function.update cs.info col {}⟩

def assign (cs : ColumnChanges) (col : ℤ) (info : ColumnInfo) : ColumnChanges :=
  ⟨insert col cs.cols, Function.update cs.info col info⟩

/-- Columns assigned to. -/
def setKind (cs : ColumnChanges) (cols : Finset ℤ) : ColumnChanges :=
  ⟨cs.cols ∪ cols, fun col => if col ∈ cols then { cs.info col with kind := .set } else cs.info col⟩

end ColumnChanges

/-- `BindingContext::ObserverState`, without the changes. -/
structure ObserverState where
  tableKey : ℕ
  objKey : ℤ
  info : ℕ
deriving DecidableEq

/-- A list of an observed object. Its builder goes by its place among the lists. -/
structure ListInfo where
  observer : ℕ
  col : ℤ
deriving DecidableEq

/-- The adapter. The changes of an observer go by its number. -/
structure KVOAdapter where
  observers : List ObserverState
  changes : ℕ → ColumnChanges := fun _ => {}
  lists : List ListInfo
  invalidated : List ℕ := []

namespace KVOAdapter

/-- An adapter for some observers, where the columns of a table that are lists are given. -/
def make (listColumns : ℕ → List ℤ) (observers : List ObserverState) : KVOAdapter where
  observers := observers
  lists := observers.zipIdx.flatMap fun (observer, n) =>
    (listColumns observer.tableKey).map fun col => ⟨n, col⟩

/-- What is observed of a transaction for the adapter. -/
def changeInfo (a : KVOAdapter) : TransactLogObserver where
  lists := a.lists.zipIdx.filterMap fun (list, n) =>
    a.observers[list.observer]?.map fun observer =>
      ⟨observer.tableKey, observer.objKey, list.col, n⟩
  tables := fun table => if table ∈ a.observers.map ObserverState.tableKey then some {} else none
  trackAll := false
  schemaChanged := false
  builders := fun _ => {}
  currentTable := none
  activeTable := none
  activeList := none

/-- An observed object goes. -/
def deleted (tables : ℕ → Option ObjectChangeSet) (observer : ObserverState) : Bool :=
  match tables observer.tableKey with
  | none => false
  | some table => table.deletionsContains observer.objKey

/-- The loop over the observers, for one of them. -/
def observerChanges (tables : ℕ → Option ObjectChangeSet) (observer : ObserverState)
    (changes : ColumnChanges) :
    ColumnChanges :=
  match tables observer.tableKey with
  | none => changes
  | some table =>
    if table.deletionsContains observer.objKey then changes
    else changes.setKind (table.getColumnsModified observer.objKey)

/-- The loop over the lists, for the changes of the observer of one. `gone` is whether its object
goes, which a build for debugging asserts where nothing is told of it. -/
def listChanges (debug gone : Bool) (c : CollectionChangeBuilder) (col : ℤ)
    (changes : ColumnChanges) :
    Except AdapterAssertion ColumnChanges :=
  if c.empty then .ok (changes.erase col)
  else if changes.cols = ∅ then if debug && !gone then .error .notDeleted else .ok changes
  else if col ∈ changes.cols then do
    let info ← c.columnInfo
    return changes.assign col info
  else .error .columnNotModified

/-- The loop over the lists. -/
def listStep (debug : Bool) (gone : ℕ → Bool) (builders : ℕ → CollectionChangeBuilder)
    (changes : ℕ → ColumnChanges) (list : ListInfo × ℕ) :
      Except AdapterAssertion (ℕ → ColumnChanges) := do
  let told ← listChanges debug (gone list.1.observer) (builders list.2) list.1.col
    (changes list.1.observer)
  return Function.update changes list.1.observer told

/-- The loop over the observers. -/
def observed (a : KVOAdapter) (tables : ℕ → Option ObjectChangeSet) (n : ℕ) : ColumnChanges :=
  match a.observers[n]? with
  | none => a.changes n
  | some observer => observerChanges tables observer (a.changes n)

def gone (a : KVOAdapter) (tables : ℕ → Option ObjectChangeSet) (n : ℕ) : Bool :=
  a.observers[n]?.any (deleted tables)

/-- `before`, in a build for debugging or in another. The tables with changes are among those of the
observers. -/
def before (debug : Bool) (a : KVOAdapter) (o : TransactLogObserver) :
    Except AdapterAssertion KVOAdapter :=
  if a.observers.all fun observer => (o.tables observer.tableKey).isNone then .ok a
  else do
    let gone := a.observers.filter (deleted o.tables)
    let invalidated := a.invalidated ++ gone.map ObserverState.info
    let changes ← execM (listStep debug (a.gone o.tables) o.builders)
      (a.observed o.tables) a.lists.zipIdx
    return { a with changes, invalidated }

end KVOAdapter

namespace Objects
variable {objs : Objects} {key col : ℤ} {i : Instruction} {is : List Instruction}

/-- There is an object with this key that was there before, and the column has been assigned to. -/
def Touched (objs : Objects) (key col : ℤ) : Prop :=
  ∃ obj ∈ objs key, obj.fresh = false ∧ col ∈ obj.touched

/-- No object but the one that was there has stayed, and it keeps what was touched. -/
lemma stayed_step (stays : (objs.apply i).Stayed key) : objs.Stayed key ∧
    (i ≠ .removeObject key ∧ ∀ oldSize, i ≠ .clearTable oldSize) ∧
    ∀ col, objs.Touched key col ∨ i = .selectList col key → (objs.apply i).Touched key col := by
  have modifies (k : ℤ) (col' : ℤ) (at_k : objs.apply i = Function.update objs k
        ((objs k).map fun obj => { obj with touched := insert col' obj.touched }))
      (kind : i ≠ .removeObject key ∧ ∀ oldSize, i ≠ .clearTable oldSize)
      (selects : ∀ col, i = .selectList col key → k = key ∧ col' = col) :
      objs.Stayed key ∧ (i ≠ .removeObject key ∧ ∀ oldSize, i ≠ .clearTable oldSize) ∧
      ∀ col, objs.Touched key col ∨ i = .selectList col key → (objs.apply i).Touched key col := by
    rw [at_k] at stays ⊢
    by_cases here : key = k
    · subst here
      obtain ⟨obj', mem, fresh⟩ := stays
      rw [Function.update_self] at mem
      obtain ⟨obj, old, rfl⟩ := Option.map_eq_some_iff.mp mem
      refine ⟨⟨obj, old, fresh⟩, kind, fun col touched => ⟨_, ?_, fresh, ?_⟩⟩
      · rw [Function.update_self]
        exact mem
      · rcases touched with ⟨obj₁, old₁, -, before⟩ | now
        · cases old.symm.trans old₁
          exact Finset.mem_insert_of_mem before
        · rw [(selects col now).2]
          exact Finset.mem_insert_self col _
    · rw [Stayed, Function.update_of_ne here] at stays
      refine ⟨stays, kind, fun col touched => ?_⟩
      rw [Touched, Function.update_of_ne here]
      exact touched.resolve_right fun now => here (selects col now).1.symm
  have same (eq : objs.apply i = objs)
      (kind : i ≠ .removeObject key ∧ ∀ oldSize, i ≠ .clearTable oldSize)
      (plain : ∀ col, i ≠ .selectList col key) : objs.Stayed key ∧
      (i ≠ .removeObject key ∧ ∀ oldSize, i ≠ .clearTable oldSize) ∧
      ∀ col, objs.Touched key col ∨ i = .selectList col key → (objs.apply i).Touched key col := by
    rw [eq] at stays ⊢
    exact ⟨stays, kind, fun col touched => touched.resolve_right (plain col)⟩
  cases i with
  | set c k =>
    exact modifies k c rfl ⟨fun eq => Instruction.noConfusion eq,
      fun _ eq => Instruction.noConfusion eq⟩
      fun _ eq => Instruction.noConfusion eq
  | selectList c k =>
    refine modifies k c rfl ⟨fun eq => Instruction.noConfusion eq,
      fun _ eq => Instruction.noConfusion eq⟩
      fun col eq => ?_
    cases eq
    exact ⟨rfl, rfl⟩
  | createObject k =>
    have other : key ≠ k := by
      rintro rfl
      obtain ⟨obj, mem, fresh⟩ := stays
      rw [apply, Function.update_self] at mem
      cases mem
      cases fresh
    rw [Stayed, apply, Function.update_of_ne other] at stays
    refine ⟨stays, ⟨fun eq => Instruction.noConfusion eq, fun _ eq => Instruction.noConfusion eq⟩,
      fun col touched => ?_⟩
    rw [Touched, apply, Function.update_of_ne other]
    exact touched.resolve_right fun eq => Instruction.noConfusion eq
  | removeObject k =>
    have other : key ≠ k := by
      rintro rfl
      obtain ⟨obj, mem, -⟩ := stays
      rw [apply, Function.update_self] at mem
      cases mem
    have stays' := stays
    rw [Stayed, apply, Function.update_of_ne other] at stays'
    refine ⟨stays', ⟨fun eq => ?_, fun _ eq => Instruction.noConfusion eq⟩, fun col touched => ?_⟩
    · cases eq
      exact other rfl
    · rw [Touched, apply, Function.update_of_ne other]
      exact touched.resolve_right fun eq => Instruction.noConfusion eq
  | clearTable _ =>
    obtain ⟨obj, mem, -⟩ := stays
    cases mem
  | insertGroupLevelTable _ | eraseGroupLevelTable _ | renameGroupLevelTable _ | selectTable _
  | insertColumn _ | eraseColumn _ | renameColumn _ | setLinkType _ | listInsert _ | listSet _
    | listMove _ _
  | listSwap _ _ | listErase _ | listClear _ =>
    exact same rfl ⟨fun eq => Instruction.noConfusion eq, fun _ eq => Instruction.noConfusion eq⟩
      fun _ eq => Instruction.noConfusion eq

/-- What was selected is modified at the end, as long as the object has stayed. -/
lemma stayed_run (stays : (exec apply objs is).Stayed key) : objs.Stayed key ∧
    (∀ i ∈ is, i ≠ .removeObject key ∧ ∀ oldSize, i ≠ .clearTable oldSize) ∧
    ∀ col, objs.Touched key col ∨ .selectList col key ∈ is →
    (exec apply objs is).Touched key col := by
  induction is generalizing objs with
  | nil => exact ⟨stays, nofun, fun col touched => touched.resolve_right List.not_mem_nil⟩
  | cons i is ih =>
    obtain ⟨stays₁, others, touches⟩ := ih stays
    obtain ⟨stays₀, first, touches₁⟩ := stayed_step stays₁
    refine ⟨stays₀, List.forall_mem_cons.mpr ⟨first, others⟩, fun col touched => touches col ?_⟩
    rcases touched with before | selected
    · exact .inl (touches₁ col (.inl before))
    · rcases List.mem_cons.mp selected with now | later
      · exact .inl (touches₁ col (.inr now.symm))
      · exact .inr later

end Objects

/-- A list that is edited was selected before, as a column of its object. -/
lemma selected_of_about {t : ℕ} {key col : ℤ} {s : Scope} {log : List Instruction}
    (edited : aboutFrom s ⟨some t, some (col, key)⟩ log ≠ []) :
    s = ⟨some t, some (col, key)⟩ ∨ .selectList col key ∈ inTable t s.table log := by
  induction log generalizing s with
  | nil => exact absurd rfl edited
  | cons i is ih =>
    refine or_iff_not_imp_left.mpr fun elsewhere => ?_
    rw [aboutFrom_cons (Option.some_ne_none _), if_neg fun both => elsewhere both.2] at edited
    have table : (Scope.after ⟨s.table, none⟩ i).table = (s.after i).table := by
      cases i <;> rfl
    rw [inTable, table]
    rcases ih edited with here | later
    · -- the instruction is the one that selects the list
      have selects : i = .selectList col key ∧ s.table = some t := by
        cases i with
        | selectTable t' =>
          rw [Scope.after, Scope.mk.injEq] at here
          exact absurd here.2.symm (Option.some_ne_none _)
        | selectList col' key' =>
          simp only [Scope.after, Scope.mk.injEq, Option.some.injEq, Prod.mk.injEq] at here
          exact ⟨by rw [here.2.1, here.2.2], here.1⟩
        | insertGroupLevelTable _ | eraseGroupLevelTable _ | renameGroupLevelTable _ =>
          exact absurd (congrArg Scope.table here).symm (Option.some_ne_none _)
        | _ => exact absurd here elsewhere
      rw [if_pos ⟨selects.2, by rw [selects.1]; rfl⟩, selects.1]
      exact List.mem_cons_self
    · split_ifs
      · exact List.mem_cons_of_mem i later
      · exact later

/-- A table is cleared at some time. -/
lemma clearDidOccur_exec {cs : ObjectChangeSet} {is : List Instruction} :
    (exec ObjectChangeSet.handle cs is).clearDidOccur = true ↔
      cs.clearDidOccur = true ∨ ∃ oldSize, .clearTable oldSize ∈ is := by
  induction is generalizing cs with
  | nil => simp
  | cons i is ih =>
    have first : (cs.handle i).clearDidOccur = true ↔
        cs.clearDidOccur = true ∨ ∃ oldSize, i = .clearTable oldSize := by
      cases i with
      | clearTable oldSize => exact iff_of_true rfl (.inr ⟨oldSize, rfl⟩)
      | removeObject key =>
        by_cases fresh : key ∈ cs.insertions
        · simp [ObjectChangeSet.handle, ObjectChangeSet.insertionsRemove,
            ObjectChangeSet.modificationsRemove,
            fresh]
        · simp [ObjectChangeSet.handle, ObjectChangeSet.insertionsRemove,
            ObjectChangeSet.modificationsRemove,
            ObjectChangeSet.deletionsAdd, fresh]
      | set col key | selectList col key =>
        simp only [ObjectChangeSet.handle, ObjectChangeSet.modificationsAdd]
        split_ifs <;> simp
      | _ => simp [ObjectChangeSet.handle, ObjectChangeSet.insertionsAdd]
    rw [exec_cons, ih, first, or_assoc]
    simp only [List.mem_cons, exists_or, eq_comm]

namespace ColumnChanges
variable {cs : ColumnChanges} {cols : Finset ℤ} {col col' : ℤ} {info : ColumnInfo}

lemma find_eq_none : cs.find col = none ↔ col ∉ cs.cols := by
  rw [find]
  split_ifs with mem
  · simp [mem]
  · simp [mem]

lemma find_erase : (cs.erase col).find col' = if col' = col then none else cs.find col' := by
  rw [find, find, erase]
  by_cases same : col' = col
  · simp [same]
  · simp [same]

lemma find_assign :
    (cs.assign col info).find col' = if col' = col then some info else cs.find col' := by
  rw [find, find, assign]
  by_cases same : col' = col
  · simp [same]
  · simp [same]

lemma find_setKind : (cs.setKind cols).find col =
    if col ∈ cols then some { cs.info col with kind := .set } else cs.find col := by
  rw [find, find, setKind]
  by_cases mem : col ∈ cols
  · simp [mem]
  · simp [mem]

end ColumnChanges

namespace KVOAdapter
variable {debug g : Bool} {gone : ℕ → Bool} {c : CollectionChangeBuilder}
  {cs cs' : ColumnChanges} {col : ℤ}
  {builders : ℕ → CollectionChangeBuilder} {changes changes' : ℕ → ColumnChanges}
  {l l' : ListInfo × ℕ}
  {lists : List (ListInfo × ℕ)}

/-- The column of a list with changes can be told of: it is modified, unless
nothing of its object is. -/
def Tellable (c : CollectionChangeBuilder) (col : ℤ) (cs : ColumnChanges) : Prop :=
  c.empty = false → (∃ col', cs.find col' ≠ none) → cs.find col ≠ none ∧
  ∃ info, c.columnInfo = .ok info

/-- If a list has changes, something is told of its object or it goes. -/
def Asserted (debug gone : Bool) (c : CollectionChangeBuilder) (cs : ColumnChanges) : Prop :=
  debug = true → c.empty = false → (∃ col', cs.find col' ≠ none) ∨ gone = true

/-- What is told of the column of a list, with what was told of it before. -/
def told (c : CollectionChangeBuilder) (entry : Option ColumnInfo) : Option ColumnInfo :=
  if c.empty then none else entry.bind fun _ => c.columnInfo.toOption

@[simp] lemma told_none : told c none = none := by
  rw [told]
  split_ifs <;> rfl

lemma listChanges_ok_iff (tellable : Tellable c col cs) :
    (∃ cs', listChanges debug g c col cs = .ok cs') ↔ Asserted debug g c cs := by
  rw [listChanges, Asserted]
  by_cases empty : c.empty = true
  · rw [if_pos empty]
    exact iff_of_true ⟨_, rfl⟩ fun _ some => absurd (empty.symm.trans some) Bool.false_ne_true.symm
  · have some := Bool.eq_false_of_not_eq_true empty
    rw [if_neg empty]
    by_cases vacant : cs.cols = ∅
    · have silent : ¬ ∃ col', cs.find col' ≠ none := by
        rintro ⟨col', entry⟩
        refine entry (ColumnChanges.find_eq_none.mpr ?_)
        rw [vacant]
        exact Finset.notMem_empty col'
      rw [if_pos vacant]
      cases debug with
      | false => exact iff_of_true ⟨cs, rfl⟩ fun on => absurd on Bool.false_ne_true
      | true =>
        cases g with
        | true => exact iff_of_true ⟨cs, rfl⟩ fun _ _ => .inr rfl
        | false =>
          refine iff_of_false (fun ⟨_, ok⟩ => ?_) fun all => ?_
          · cases ok
          · exact (all rfl some).elim silent Bool.false_ne_true
    · obtain ⟨col', mem⟩ := Finset.nonempty_iff_ne_empty.mpr vacant
      have entry : ∃ col', cs.find col' ≠ none :=
        ⟨col', fun none => ColumnChanges.find_eq_none.mp none mem⟩
      obtain ⟨here, info, ok⟩ := tellable some entry
      have mem' : col ∈ cs.cols := by
        by_contra out
        exact here (ColumnChanges.find_eq_none.mpr out)
      rw [if_neg vacant, if_pos mem', ok]
      exact iff_of_true ⟨_, rfl⟩ fun _ _ => .inl entry

/-- A list without changes has no entry, and one with changes the entry made of them. -/
lemma find_listChanges (ok : listChanges debug g c col cs = .ok cs') :
    cs'.find col = told c (cs.find col) ∧ ∀ col', col' ≠ col → cs'.find col' = cs.find col' := by
  rw [listChanges] at ok
  rw [told]
  by_cases empty : c.empty = true
  · rw [if_pos empty] at ok ⊢
    cases ok
    refine ⟨?_, fun col' other => ?_⟩
    · rw [ColumnChanges.find_erase, if_pos rfl]
    · rw [ColumnChanges.find_erase, if_neg other]
  · rw [if_neg empty] at ok ⊢
    by_cases vacant : cs.cols = ∅
    · have none : cs.find col = none := by
        rw [ColumnChanges.find_eq_none, vacant]
        exact Finset.notMem_empty col
      rw [if_pos vacant] at ok
      split_ifs at ok
      cases ok
      rw [none]
      exact ⟨rfl, fun _ _ => rfl⟩
    · rw [if_neg vacant] at ok
      by_cases mem : col ∈ cs.cols
      · rw [if_pos mem] at ok
        obtain ⟨info, kind, ok⟩ := ok_bind_iff.mp ok
        cases ok
        have entry : cs.find col = some (cs.info col) := if_pos mem
        rw [entry, kind]
        refine ⟨?_, fun col' other => ?_⟩
        · rw [ColumnChanges.find_assign, if_pos rfl]
          rfl
        · rw [ColumnChanges.find_assign, if_neg other]
      · rw [if_neg mem] at ok
        cases ok

/-- One turn of the loop over the lists tells of one list. -/
lemma find_listStep (ok : listStep debug gone builders changes l = .ok changes') :
    (changes' l.1.observer).find l.1.col = told (builders l.2)
    ((changes l.1.observer).find l.1.col) ∧
      ∀ k col, l.1 ≠ ⟨k, col⟩ → (changes' k).find col = (changes k).find col := by
  obtain ⟨cs', first, step⟩ := ok_bind_iff.mp ok
  cases step
  obtain ⟨here, elsewhere⟩ := find_listChanges first
  refine ⟨?_, fun k col ne => ?_⟩
  · rw [Function.update_self, here]
  · by_cases same : k = l.1.observer
    · subst same
      rw [Function.update_self]
      refine elsewhere col fun eq => ne ?_
      rw [eq]
    · rw [Function.update_of_ne same]

lemma listStep_ok_iff (tellable : Tellable (builders l.2) l.1.col (changes l.1.observer)) :
    (∃ changes', listStep debug gone builders changes l = .ok changes') ↔
      Asserted debug (gone l.1.observer) (builders l.2) (changes l.1.observer) := by
  rw [← listChanges_ok_iff tellable]
  constructor
  · rintro ⟨changes', ok⟩
    obtain ⟨cs', ok, -⟩ := ok_bind_iff.mp ok
    exact ⟨cs', ok⟩
  · rintro ⟨cs', ok⟩
    exact ⟨_, ok_bind_iff.mpr ⟨cs', ok, rfl⟩⟩

/-- Telling of one list leaves another to be told of, and as it was. -/
lemma tellable_listStep (ok : listStep debug gone builders changes l = .ok changes')
    (ne : l.1 ≠ l'.1)
    (tellable : Tellable (builders l'.2) l'.1.col (changes l'.1.observer)) :
    Tellable (builders l'.2) l'.1.col (changes' l'.1.observer) ∧
      (Asserted debug (gone l'.1.observer) (builders l'.2) (changes' l'.1.observer) ↔
        Asserted debug (gone l'.1.observer) (builders l'.2) (changes l'.1.observer)) := by
  obtain ⟨here, elsewhere⟩ := find_listStep ok
  have kept : (changes' l'.1.observer).find l'.1.col = (changes l'.1.observer).find l'.1.col :=
    elsewhere _ _ ne
  have entries (entry : ∃ col', (changes' l'.1.observer).find col' ≠ none) :
      ∃ col', (changes l'.1.observer).find col' ≠ none := by
    obtain ⟨col', entry⟩ := entry
    refine ⟨col', ?_⟩
    by_cases same : l.1 = ⟨l'.1.observer, col'⟩
    · have observer : l'.1.observer = l.1.observer := (congrArg ListInfo.observer same).symm
      have column : col' = l.1.col := (congrArg ListInfo.col same).symm
      rw [observer, column, here] at entry
      rw [observer, column]
      intro none
      rw [none, told_none] at entry
      exact entry rfl
    · rwa [elsewhere _ _ same] at entry
  refine ⟨fun some entry => ?_, forall₂_congr fun _ some => or_congr_left
    ⟨entries, fun entry => ?_⟩⟩
  · rw [kept]
    exact tellable some (entries entry)
  · refine ⟨l'.1.col, ?_⟩
    rw [kept]
    exact (tellable some entry).1

/-- The loop over the lists tells of each list once. It stops only at a list with changes of an
object of which nothing is told and that does not go. -/
lemma execM_listStep (distinct : lists.Pairwise fun l l' => l.1 ≠ l'.1)
    (tellable : ∀ l ∈ lists, Tellable (builders l.2) l.1.col (changes l.1.observer)) :
    ((∃ changes', execM (listStep debug gone builders) changes lists = .ok changes') ↔
      ∀ l ∈ lists, Asserted debug (gone l.1.observer) (builders l.2) (changes l.1.observer)) ∧
    ∀ changes', execM (listStep debug gone builders) changes lists = .ok changes' →
      (∀ l ∈ lists, (changes' l.1.observer).find l.1.col =
        told (builders l.2) ((changes l.1.observer).find l.1.col)) ∧
      ∀ k col, (∀ l ∈ lists, l.1 ≠ ⟨k, col⟩) → (changes' k).find col = (changes k).find col := by
  induction lists generalizing changes with
  | nil =>
    refine ⟨iff_of_true ⟨changes, rfl⟩ (List.forall_mem_nil _), fun changes' run => ?_⟩
    cases run
    exact ⟨List.forall_mem_nil _, fun _ _ _ => rfl⟩
  | cons l lists ih =>
    obtain ⟨others, rest⟩ := List.pairwise_cons.mp distinct
    obtain ⟨first, later⟩ := List.forall_mem_cons.mp tellable
    have next {changes₁ : ℕ → ColumnChanges}
        (ok : listStep debug gone builders changes l = .ok changes₁) :=
      @ih changes₁ rest fun l' mem =>
        (tellable_listStep ok (others l' mem) (later l' mem)).1
    refine ⟨⟨?_, fun all => ?_⟩, fun changes' run => ?_⟩
    · rintro ⟨changes', run⟩
      obtain ⟨changes₁, ok, run⟩ := execM_cons_ok.mp run
      refine List.forall_mem_cons.mpr ⟨(listStep_ok_iff first).mp ⟨_, ok⟩, fun l' mem => ?_⟩
      exact (tellable_listStep ok (others l' mem) (later l' mem)).2.mp
        ((next ok).1.mp ⟨_, run⟩ l' mem)
    · obtain ⟨now, after⟩ := List.forall_mem_cons.mp all
      obtain ⟨changes₁, ok⟩ := (listStep_ok_iff first).mpr now
      obtain ⟨changes', run⟩ := (next ok).1.mpr fun l' mem =>
        (tellable_listStep ok (others l' mem) (later l' mem)).2.mpr (after l' mem)
      exact ⟨changes', execM_cons_ok.mpr ⟨changes₁, ok, run⟩⟩
    · obtain ⟨changes₁, ok, run⟩ := execM_cons_ok.mp run
      obtain ⟨here, elsewhere⟩ := find_listStep ok
      obtain ⟨listed, unlisted⟩ := (next ok).2 changes' run
      refine ⟨List.forall_mem_cons.mpr ⟨?_, fun l' mem => ?_⟩, fun k col ne => ?_⟩
      · rw [unlisted _ _ fun l' mem eq => others l' mem eq.symm, here]
      · rw [listed l' mem, elsewhere _ _ (others l' mem)]
      · obtain ⟨ne', others'⟩ := List.forall_mem_cons.mp ne
        rw [unlisted k col others', elsewhere k col ne']

section Make
variable {listColumns : ℕ → List ℤ} {observers : List ObserverState} {list : ListInfo}
  {s : ObserverState}
  {o : TransactLogObserver} {k n t : ℕ} {e : ListChangeInfo}

/-- No object is observed twice. -/
def Distinct (observers : List ObserverState) : Prop :=
  observers.Pairwise fun s s' => ¬ (s.tableKey = s'.tableKey ∧ s.objKey = s'.objKey)

lemma Distinct.eq {k k' : ℕ} {s s' : ObserverState} (distinct : Distinct observers)
    (here : observers[k]? = some s) (there : observers[k']? = some s')
    (table : s.tableKey = s'.tableKey)
    (obj : s.objKey = s'.objKey) : k = k' := by
  obtain ⟨lt, rfl⟩ := List.getElem?_eq_some_iff.mp here
  obtain ⟨lt', rfl⟩ := List.getElem?_eq_some_iff.mp there
  have pairs := List.pairwise_iff_getElem.mp distinct
  rcases Nat.lt_trichotomy k k' with before | same | after
  · exact absurd ⟨table, obj⟩ (pairs k k' lt lt' before)
  · exact same
  · exact absurd ⟨table.symm, obj.symm⟩ (pairs k' k lt' lt after)

lemma mem_make_lists : list ∈ (make listColumns observers).lists ↔
    ∃ s, observers[list.observer]? = some s ∧ list.col ∈ listColumns s.tableKey := by
  simp only [make, List.mem_flatMap, List.mem_map, Prod.exists, List.mem_zipIdx_iff_getElem?]
  constructor
  · rintro ⟨s, n, here, col, mem, rfl⟩
    exact ⟨s, here, mem⟩
  · rintro ⟨s, here, mem⟩
    exact ⟨s, list.observer, here, list.col, mem, rfl⟩

lemma make_lists_nodup (columns : ∀ t, (listColumns t).Nodup) :
    (make listColumns observers).lists.Nodup := by
  refine List.nodup_flatMap.mpr ⟨fun x _ => (columns _).map fun _ _ eq =>
    (ListInfo.mk.inj eq).2, ?_⟩
  have numbers : (observers.zipIdx.map Prod.snd).Nodup := by
    rw [List.zipIdx_map_snd]
    exact List.nodup_range'
  refine (List.pairwise_map.mp numbers).imp fun ne list mem mem' => ne ?_
  obtain ⟨col, -, rfl⟩ := List.mem_map.mp mem
  obtain ⟨col', -, eq⟩ := List.mem_map.mp mem'
  exact (ListInfo.mk.inj eq).1.symm

lemma mem_changeInfo_lists : e ∈ (make listColumns observers).changeInfo.lists ↔
    ∃ list n s, (make listColumns observers).lists[n]? = some list ∧
    observers[list.observer]? = some s ∧
      e = ⟨s.tableKey, s.objKey, list.col, n⟩ := by
  show e ∈ (List.filterMap _ _) ↔ _
  simp only [List.mem_filterMap, Prod.exists, List.mem_zipIdx_iff_getElem?, Option.map_eq_some_iff]
  constructor
  · rintro ⟨list, n, here, s, observer, eq⟩
    exact ⟨list, n, s, here, observer, eq.symm⟩
  · rintro ⟨list, n, s, here, observer, eq⟩
    exact ⟨list, n, here, s, observer, eq.symm⟩

lemma tracks_changeInfo : (make listColumns observers).changeInfo.Tracks t ↔
    t ∈ observers.map ObserverState.tableKey := by
  rw [TransactLogObserver.Tracks]
  show false = true ∨ (if t ∈ observers.map ObserverState.tableKey then some ({} : ObjectChangeSet)
    else none).isSome = true ↔ _
  split_ifs with mem
  · exact iff_of_true (.inr rfl) mem
  · simpa using mem

lemma ready_changeInfo (distinct : Distinct observers) (columns : ∀ t, (listColumns t).Nodup) :
    Ready (make listColumns observers).changeInfo := by
  refine ⟨rfl, rfl, rfl, fun _ _ => rfl, fun t => ?_, fun e mem e' mem' same => ?_,
    fun e mem e' mem' same => ?_⟩
  · show (if t ∈ observers.map ObserverState.tableKey then some ({} : ObjectChangeSet)
      else none).getD {} = {}
    split_ifs <;> rfl
  · obtain ⟨list, n, s, here, observer, rfl⟩ := mem_changeInfo_lists.mp mem
    obtain ⟨list', n', s', here', observer', rfl⟩ := mem_changeInfo_lists.mp mem'
    simp only [ListChangeInfo.scope, Scope.mk.injEq, Option.some.injEq, Prod.mk.injEq] at same
    obtain ⟨table, col, obj⟩ := same
    have number := distinct.eq observer observer' table obj
    have eq : list = list' := by
      cases list
      cases list'
      exact congrArg₂ _ number col
    subst eq
    obtain ⟨lt, at_n⟩ := List.getElem?_eq_some_iff.mp here
    obtain ⟨lt', at_n'⟩ := List.getElem?_eq_some_iff.mp here'
    have place : n = n' := (make_lists_nodup columns).getElem_inj_iff.mp (at_n.trans at_n'.symm)
    rw [place, Option.some.inj (observer.symm.trans observer')]
  · obtain ⟨list, n, s, here, observer, rfl⟩ := mem_changeInfo_lists.mp mem
    obtain ⟨list', n', s', here', observer', rfl⟩ := mem_changeInfo_lists.mp mem'
    obtain rfl : n = n' := same
    obtain rfl : list = list' := Option.some.inj (here.symm.trans here')
    rw [Option.some.inj (observer.symm.trans observer')]

lemma observed_make (observer : observers[k]? = some s) {tables : ℕ → Option ObjectChangeSet} :
    (make listColumns observers).observed tables k = observerChanges tables s {} := by
  rw [observed]
  show (match observers[k]? with | none => _ | some observer => _) = _
  rw [observer]
  rfl

lemma gone_make (observer : observers[k]? = some s) {tables : ℕ → Option ObjectChangeSet} :
    (make listColumns observers).gone tables k = deleted tables s := by
  rw [gone]
  show observers[k]?.any _ = _
  rw [observer, Option.any_some]

lemma before_ok_iff {a a' : KVOAdapter}
    (some : ¬ (a.observers.all fun observer => (o.tables observer.tableKey).isNone) = true) :
    a.before debug o = .ok a' ↔ ∃ changes,
      execM (listStep debug (a.gone o.tables) o.builders) (a.observed o.tables) a.lists.zipIdx =
        .ok changes ∧
      { a with
        changes
        invalidated :=
          a.invalidated ++ (a.observers.filter (deleted o.tables)).map ObserverState.info } =
          a' := by
  rw [before, if_neg some]
  refine ok_bind_iff.trans (exists_congr fun changes => and_congr_right' ?_)
  exact ⟨Except.ok.inj, congrArg Except.ok⟩

/-- `before` stops only at a list with changes of an object of which nothing is told and that does
not go. Else it tells of every list what is to be told. -/
lemma before_spec (columns : ∀ t, (listColumns t).Nodup)
    (tellable : ∀ n k col s, (make listColumns observers).lists[n]? = some ⟨k, col⟩ →
      observers[k]? = some s →
      Tellable (o.builders n) col (observerChanges o.tables s {}))
    (still : ∀ n k col s, (make listColumns observers).lists[n]? = some ⟨k, col⟩ →
      observers[k]? = some s →
      o.tables s.tableKey = none → (o.builders n).empty = true) :
    ((∃ a, (make listColumns observers).before debug o = .ok a) ↔
      ∀ n k col s, (make listColumns observers).lists[n]? = some ⟨k, col⟩ → observers[k]? = some s →
        Asserted debug (deleted o.tables s) (o.builders n) (observerChanges o.tables s {})) ∧
    ∀ a, (make listColumns observers).before debug o = .ok a →
      a.invalidated = (observers.filter (deleted o.tables)).map ObserverState.info ∧
      ∀ k s, observers[k]? = some s → ∀ col,
        (∀ n, (make listColumns observers).lists[n]? = some ⟨k, col⟩ → (a.changes k).find col =
          told (o.builders n) ((observerChanges o.tables s {}).find col)) ∧
        (col ∉ listColumns s.tableKey →
          (a.changes k).find col = (observerChanges o.tables s {}).find col) := by
  by_cases quiet : (observers.all fun observer => (o.tables observer.tableKey).isNone) = true
  · -- no table has changes
    have unchanged (s : ObserverState) (mem : s ∈ observers) : o.tables s.tableKey = none :=
      Option.isNone_iff_eq_none.mp (List.all_eq_true.mp quiet s mem)
    have skip : (make listColumns observers).before debug o = .ok (make listColumns observers) :=
      if_pos quiet
    rw [skip]
    refine ⟨iff_of_true ⟨_, rfl⟩ fun n k col s at_n observer _ some => ?_, fun a ok => ?_⟩
    · have none := still n k col s at_n observer (unchanged s (List.mem_of_getElem? observer))
      exact absurd (none.symm.trans some) Bool.false_ne_true.symm
    · cases ok
      refine ⟨?_, fun k s here col => ?_⟩
      · rw [List.filter_eq_nil_iff.mpr fun s mem => ?_]
        · rfl
        · rw [deleted, unchanged s mem]
          exact Bool.false_ne_true
      · have plain : observerChanges o.tables s {} = {} := by
          rw [observerChanges, unchanged s (List.mem_of_getElem? here)]
        rw [plain]
        exact ⟨fun n _ => told_none.symm, fun _ => rfl⟩
  · have distinct : (make listColumns observers).lists.zipIdx.Pairwise fun l l' => l.1 ≠ l'.1 := by
      have nodup := @make_lists_nodup listColumns observers columns
      rw [← List.zipIdx_map_fst 0 (make listColumns observers).lists] at nodup
      exact List.pairwise_map.mp nodup
    obtain ⟨stops, tells⟩ := @execM_listStep debug
      ((make listColumns observers).gone o.tables) o.builders
      ((make listColumns observers).observed o.tables) _ distinct fun l mem => by
        have here := List.mem_zipIdx_iff_getElem?.mp mem
        obtain ⟨s, observer, -⟩ := mem_make_lists.mp (List.mem_of_getElem? here)
        rw [observed_make observer]
        exact tellable l.2 l.1.observer l.1.col s here observer
    refine ⟨⟨?_, fun asserted => ?_⟩, fun a ok => ?_⟩
    · rintro ⟨a, ok⟩ n k col s at_n observer
      obtain ⟨changes, run, -⟩ := (before_ok_iff quiet).mp ok
      have one := stops.mp ⟨changes, run⟩ (⟨k, col⟩, n) (List.mem_zipIdx_iff_getElem?.mpr at_n)
      rwa [gone_make observer, observed_make observer] at one
    · obtain ⟨changes, run⟩ := stops.mpr fun l mem => by
        have here := List.mem_zipIdx_iff_getElem?.mp mem
        obtain ⟨s, observer, -⟩ := mem_make_lists.mp (List.mem_of_getElem? here)
        rw [gone_make observer, observed_make observer]
        exact asserted l.2 l.1.observer l.1.col s here observer
      exact ⟨_, (before_ok_iff quiet).mpr ⟨changes, run, rfl⟩⟩
    · obtain ⟨changes, run, rfl⟩ := (before_ok_iff quiet).mp ok
      obtain ⟨listed, unlisted⟩ := tells changes run
      refine ⟨rfl, fun k s here col => ⟨fun n at_n => ?_, fun out => ?_⟩⟩
      · have one := listed (⟨k, col⟩, n) (List.mem_zipIdx_iff_getElem?.mpr at_n)
        rwa [observed_make here] at one
      · rw [← @observed_make listColumns _ _ _ here]
        refine unlisted k col fun l mem eq => out ?_
        have there := List.mem_of_getElem? (List.mem_zipIdx_iff_getElem?.mp mem)
        rw [eq, mem_make_lists] at there
        obtain ⟨s', here', mem'⟩ := there
        rwa [Option.some.inj (here.symm.trans here')]

end Make

end KVOAdapter

section Report
open KVOAdapter
variable {α : Type*} {listColumns : ℕ → List ℤ} {observers : List ObserverState} {s : ObserverState}
  {log : List Instruction} {tables : ℕ → Option ObjectChangeSet} {old : ℤ → Prop}
  {objs : Objects} {col : ℤ}

lemma deleted_eq : deleted tables s = ((tables s.tableKey).getD {}).deletionsContains s.objKey := by
  rw [deleted]
  cases tables s.tableKey <;> rfl

/-- Of an object that has stayed the columns assigned to are told, and of others nothing is. -/
lemma find_observerChanges (reports : ReportsObjects ((tables s.tableKey).getD {}) old objs)
    {info : ColumnInfo} : (observerChanges tables s {}).find col = some info ↔
      info = { kind := .set } ∧ objs.Touched s.objKey col := by
  have touched := reports.modified s.objKey col
  have nothing : ColumnChanges.find {} col = none := rfl
  rw [observerChanges]
  cases some : tables s.tableKey with
  | none =>
    rw [some] at touched
    rw [nothing]
    exact iff_of_false (Option.some_ne_none _).symm fun both => Finset.notMem_empty _
      (touched.mpr both.2)
  | some table =>
    rw [some] at touched reports
    dsimp only
    by_cases gone : table.deletionsContains s.objKey = true
    · rw [if_pos gone, nothing]
      refine iff_of_false (Option.some_ne_none _).symm fun ⟨_, obj, mem, stays, _⟩ => ?_
      have there := reports.stayed s.objKey ⟨obj, mem, stays⟩
      exact ((reports.deletionsContains_iff there).mp gone).1 ⟨obj, mem, stays⟩
    · have cols : col ∈ table.getColumnsModified s.objKey ↔ objs.Touched s.objKey col :=
        ObjectChangeSet.mem_getColumnsModified.trans touched
      rw [if_neg gone, ColumnChanges.find_setKind, nothing, ← cols]
      by_cases modified : col ∈ table.getColumnsModified s.objKey
      · rw [if_pos modified, Option.some.injEq, eq_comm]
        exact (and_iff_left modified).symm
      · rw [if_neg modified]
        exact iff_of_false (Option.some_ne_none _).symm fun both => modified both.2

/-- What is told of a list is so. -/
lemma tells {c : CollectionChangeBuilder} {old : List α} {rows : List (Row α)}
    {entry : Option ColumnInfo}
    (follows : Follows c old rows) (unset : c.modificationsNew.ranges = [])
    (modified : c.empty = false → entry ≠ none) :
    Tells (told c entry) c.finalize old (rows.map Row.value) := by
  have quiet := follows.empty_iff unset
  rw [told]
  by_cases empty : c.empty = true
  · rw [if_pos empty]
    refine ⟨iff_of_true rfl (quiet.mp empty),
      fun _ => follows.unchanged (quiet.mp empty), ?_, ?_, ?_⟩
    · exact fun _ mem => absurd mem.symm (Option.some_ne_none _)
    · exact fun _ mem => absurd mem.symm (Option.some_ne_none _)
    · exact fun _ mem => absurd mem.symm (Option.some_ne_none _)
  · have changed := mt quiet.mpr empty
    obtain ⟨info, ok⟩ := Follows.columnInfo_ok changed
    obtain ⟨before, here⟩ := Option.ne_none_iff_exists'.mp
      (modified (Bool.eq_false_of_not_eq_true empty))
    have entry' :
        (if c.empty then none else entry.bind fun _ => c.columnInfo.toOption) = some info := by
      rw [if_neg empty, here, ok]
      rfl
    rw [entry']
    refine ⟨iff_of_false (Option.some_ne_none _) changed,
      fun none => absurd none (Option.some_ne_none _),
      ?_, ?_, ?_⟩
    · rintro _ ⟨⟩ k
      have told := (Follows.toldAs_columnInfo ok).1
      refine ⟨?_, told.unique⟩
      rintro rfl
      exact told
    · rintro _ ⟨⟩ apart
      exact follows.described ok apart
    · rintro _ ⟨⟩ kind apart x
      exact Follows.mem_columnInfo ok kind apart

/-- The object of an observer goes: it does not stay, and if its table was cleared no
other has its key. -/
def Goes (log : List Instruction) (objs : Objects) (s : ObserverState) : Prop :=
  ¬ objs.Stayed s.objKey ∧
    ((∃ oldSize, .clearTable oldSize ∈ inTable s.tableKey none log) → objs s.objKey = none)

/-- A transaction is observed for the observers of some objects. Telling them stops only in a
build for debugging, at a list with changes of an object that was cleared away with its table
and whose key another has. Else those are told that their object goes whose object does. The
others are told of the columns assigned to, and of every list in a way that leads from the old
values to the new ones. -/
theorem observers_told (debug : Bool) (distinct : Distinct observers)
    (columns : ∀ t, (listColumns t).Nodup)
    (supported : ∀ i ∈ log, Supported i) (selections : Scoped .nothing log)
    (proper : ∀ s ∈ observers, ∀ col ∈ listColumns s.tableKey,
      ∀ i ∈ about ⟨some s.tableKey, some (col, s.objKey)⟩ log, Proper i)
    {old : ℕ → ℤ → ℤ → List α} {es : ℕ → ℤ → ℤ → List (Edit α)}
    (edits : ∀ s ∈ observers, Stays log s.tableKey s.objKey → ∀ col ∈ listColumns s.tableKey,
      AllSteps Edit.values (fun l e => e.Allowed l.length) (old s.tableKey s.objKey col)
        (es s.tableKey s.objKey col) ∧
      about ⟨some s.tableKey, some (col, s.objKey)⟩ log =
        Edit.log ((old s.tableKey s.objKey col).map Row.fresh) (es s.tableKey s.objKey col))
    {objects : ℕ → ℤ → Prop} [∀ t, DecidablePred (objects t)]
    (there : ∀ s ∈ observers, objects s.tableKey s.objKey)
    (allowed : ∀ s ∈ observers,
      AllSteps Objects.apply Objects.Allowed (.reported (objects s.tableKey))
        (inTable s.tableKey none log)) :
    let objs (t : ℕ) := exec Objects.apply (.reported (objects t)) (inTable t none log)
    ∃ o, execM TransactLogObserver.observe (make listColumns observers).changeInfo log = .ok o ∧
      ((∃ a, (make listColumns observers).before debug o.parseComplete = .ok a) ↔
        (debug = true → ∀ n k col s, (make listColumns observers).lists[n]? = some ⟨k, col⟩ →
          observers[k]? = some s → (o.parseComplete.builders n).empty = false →
            (objs s.tableKey).Stayed s.objKey ∨ Goes log (objs s.tableKey) s)) ∧
      ∀ a, (make listColumns observers).before debug o.parseComplete = .ok a →
        (∃ gone : List ObserverState, a.invalidated = gone.map ObserverState.info ∧
          gone.Sublist observers ∧ ∀ s ∈ observers, s ∈ gone ↔ Goes log (objs s.tableKey) s) ∧
        ∀ k s, observers[k]? = some s →
          (¬ (objs s.tableKey).Stayed s.objKey → ∀ col, (a.changes k).find col = none) ∧
          (∀ col, col ∉ listColumns s.tableKey → ∀ info, (a.changes k).find col = some info ↔
            info = { kind := .set } ∧ (objs s.tableKey).Touched s.objKey col) ∧
          ∀ n col, (make listColumns observers).lists[n]? = some ⟨k, col⟩ →
            (objs s.tableKey).Stayed s.objKey → ∃ rows,
              rows.map Row.value =
                exec Edit.values (old s.tableKey s.objKey col) (es s.tableKey s.objKey col) ∧
              Reports (o.parseComplete.builders n).finalize (old s.tableKey s.objKey col) rows ∧
              Tells ((a.changes k).find col) (o.parseComplete.builders n).finalize
                (old s.tableKey s.objKey col) (rows.map Row.value) := by
  intro objs
  have listed (e : ListChangeInfo) (mem : e ∈ (make listColumns observers).changeInfo.lists) :
      ∃ s ∈ observers, e.colKey ∈ listColumns s.tableKey ∧ e.tableKey = s.tableKey ∧
      e.rowKey = s.objKey := by
    obtain ⟨list, n, s, here, observer, rfl⟩ := mem_changeInfo_lists.mp mem
    obtain ⟨s', observer', col⟩ := mem_make_lists.mp (List.mem_of_getElem? here)
    cases observer.symm.trans observer'
    exact ⟨s, List.mem_of_getElem? observer, col, rfl, rfl⟩
  have proper' : ∀ e ∈ (make listColumns observers).changeInfo.lists, ∀ i ∈ about e.scope log,
      Proper i := by
    intro e mem
    obtain ⟨s, observer, col, table, row⟩ := listed e mem
    rw [ListChangeInfo.scope, table, row]
    exact proper s observer e.colKey col
  have edits' : ∀ e ∈ (make listColumns observers).changeInfo.lists, Stays log e.tableKey e.rowKey →
      AllSteps Edit.values (fun l e => e.Allowed l.length) (old e.tableKey e.rowKey e.colKey)
        (es e.tableKey e.rowKey e.colKey) ∧
      about e.scope log = Edit.log ((old e.tableKey e.rowKey e.colKey).map Row.fresh)
        (es e.tableKey e.rowKey e.colKey) := by
    intro e mem stays
    obtain ⟨s, observer, col, table, row⟩ := listed e mem
    rw [table, row] at stays
    rw [ListChangeInfo.scope, table, row]
    exact edits s observer stays e.colKey col
  obtain ⟨o, run, lists, tables⟩ :=
    transaction_followed (ready_changeInfo distinct columns) supported selections proper' edits'
  have reports (s : ObserverState) (mem : s ∈ observers) :
      ReportsObjects ((o.parseComplete.tables s.tableKey).getD {}) (objects s.tableKey)
        (objs s.tableKey) := by
    rw [tables _ (tracks_changeInfo.mpr (List.mem_map_of_mem mem))]
    exact ReportsObjects.init.run (allowed s mem)
  have goes (s : ObserverState) (mem : s ∈ observers) :
      deleted o.parseComplete.tables s = true ↔ Goes log (objs s.tableKey) s := by
    rw [deleted_eq, (reports s mem).deletionsContains_iff (there s mem),
      tables _ (tracks_changeInfo.mpr (List.mem_map_of_mem mem)), clearDidOccur_exec, Goes]
    exact and_congr_right' (imp_congr_left (or_iff_right Bool.false_ne_true))
  -- what is followed of a list, and that its column is modified if it has changes
  have followed (n k : ℕ) (col : ℤ) (s : ObserverState)
      (at_n : (make listColumns observers).lists[n]? = some ⟨k, col⟩)
      (observer : observers[k]? = some s)
      (stays : (objs s.tableKey).Stayed s.objKey) :
      ∃ rows, rows.map Row.value =
          exec Edit.values (old s.tableKey s.objKey col) (es s.tableKey s.objKey col) ∧
        Follows (o.parseComplete.builders n) (old s.tableKey s.objKey col) rows ∧
        Reports (o.parseComplete.builders n).finalize (old s.tableKey s.objKey col) rows ∧
        (o.parseComplete.builders n).modificationsNew.ranges = [] ∧
        ((o.parseComplete.builders n).empty = false → (objs s.tableKey).Touched s.objKey col) := by
    obtain ⟨-, spared, touches⟩ := Objects.stayed_run stays
    obtain ⟨c, rows, m, log', values, follows, eq⟩ := lists ⟨s.tableKey, s.objKey, col, n⟩
      (mem_changeInfo_lists.mpr ⟨⟨k, col⟩, n, s, at_n, observer, rfl⟩) spared
    have clean := follows.cleaned m
    dsimp only at eq
    rw [eq]
    refine ⟨rows, values, clean.cleanUpStaleMoves,
      clean.cleanUpStaleMoves.reports clean.records.cleanUpStaleMoves.2, ?_,
      fun changed => touches col (.inr ?_)⟩
    · show (CollectionChangeBuilder.cleanUpStaleMoves^[m] c).modificationsNew.ranges = []
      rw [cleaned_modificationsNew, execM_modificationsNew log']
      rfl
    · have edited : aboutFrom .nothing ⟨some s.tableKey, some (col, s.objKey)⟩ log ≠ [] := by
        intro none
        have still : c = {} := by
          have plain : about (ListChangeInfo.scope ⟨s.tableKey, s.objKey, col, n⟩) log = [] := none
          rw [plain] at log'
          exact (Except.ok.inj log').symm
        rw [still, Function.iterate_fixed rfl] at changed
        cases changed
      exact (selected_of_about edited).resolve_left fun here =>
        absurd (congrArg Scope.table here) (Option.some_ne_none _).symm
  have find (s : ObserverState) (mem : s ∈ observers) (col : ℤ) (info : ColumnInfo) :=
    @find_observerChanges s o.parseComplete.tables _ _ col (reports s mem) info
  have modified (s : ObserverState) (mem : s ∈ observers) (col : ℤ)
      (touched : (objs s.tableKey).Touched s.objKey col) :
      (observerChanges o.parseComplete.tables s {}).find col ≠ none := by
    rw [(find s mem col _).mpr ⟨rfl, touched⟩]
    exact Option.some_ne_none _
  have unmodified (s : ObserverState) (mem : s ∈ observers)
      (gone : ¬ (objs s.tableKey).Stayed s.objKey)
      (col : ℤ) : (observerChanges o.parseComplete.tables s {}).find col = none := by
    refine Option.eq_none_iff_forall_ne_some.mpr fun info entry => ?_
    obtain ⟨-, obj, here, stays, -⟩ := (find s mem col info).mp entry
    exact gone ⟨obj, here, stays⟩
  -- a table without changes has all its objects stay, and their lists as they were
  have still (n k : ℕ) (col : ℤ) (s : ObserverState)
      (at_n : (make listColumns observers).lists[n]? = some ⟨k, col⟩)
      (observer : observers[k]? = some s)
      (quiet : o.parseComplete.tables s.tableKey = none) :
      (o.parseComplete.builders n).empty = true := by
    have mem := List.mem_of_getElem? observer
    have stays : (objs s.tableKey).Stayed s.objKey := by
      by_contra gone
      have deleted' := (reports s mem).deletionsContains_iff (there s mem)
      rw [quiet] at deleted'
      exact Bool.false_ne_true (deleted'.mpr ⟨gone, fun clear => absurd clear Bool.false_ne_true⟩)
    obtain ⟨-, -, -, -, -, touches⟩ := followed n k col s at_n observer stays
    by_contra some
    refine modified s mem col (touches (Bool.eq_false_of_not_eq_true some)) ?_
    rw [observerChanges, quiet]
    rfl
  obtain ⟨stops, tells'⟩ := @before_spec debug listColumns observers o.parseComplete columns
    (fun n k col s at_n observer some entries => by
      obtain ⟨col', entry⟩ := entries
      have mem := List.mem_of_getElem? observer
      by_cases stays : (objs s.tableKey).Stayed s.objKey
      · obtain ⟨rows, -, follows, -, unset, touches⟩ := followed n k col s at_n observer stays
        refine ⟨modified s mem col (touches some), Follows.columnInfo_ok fun quiet => ?_⟩
        exact absurd (((follows.empty_iff unset).mpr quiet).symm.trans some) Bool.false_ne_true.symm
      · exact absurd (unmodified s mem stays col') entry) still
  refine ⟨o, run, stops.trans ?_, fun a ok => ?_⟩
  · -- of an object that has stayed something is told if one of its lists has changes
    have one (n k : ℕ) (col : ℤ) (s : ObserverState)
        (at_n : (make listColumns observers).lists[n]? = some ⟨k, col⟩)
        (observer : observers[k]? = some s)
        (some : (o.parseComplete.builders n).empty = false) :
        ((∃ col', (observerChanges o.parseComplete.tables s {}).find col' ≠ none) ∨
          deleted o.parseComplete.tables s = true ↔
        (objs s.tableKey).Stayed s.objKey ∨ Goes log (objs s.tableKey) s) := by
      have mem := List.mem_of_getElem? observer
      refine or_congr ⟨fun entries => ?_, fun stays => ⟨col, ?_⟩⟩ (goes s mem)
      · obtain ⟨col', entry⟩ := entries
        by_contra gone
        exact entry (unmodified s mem gone col')
      · obtain ⟨-, -, -, -, -, touches⟩ := followed n k col s at_n observer stays
        exact modified s mem col (touches some)
    constructor
    · intro all on n k col s at_n observer some
      exact (one n k col s at_n observer some).mp (all n k col s at_n observer on some)
    · intro all n k col s at_n observer on some
      exact (one n k col s at_n observer some).mpr (all on n k col s at_n observer some)
  · obtain ⟨invalidated, changes⟩ := tells' a ok
    refine ⟨⟨_, invalidated, List.filter_sublist, fun s mem => ?_⟩, fun k s observer => ?_⟩
    · rw [List.mem_filter, goes s mem]
      exact and_iff_right mem
    · have mem := List.mem_of_getElem? observer
      refine ⟨fun gone col => ?_, fun col out info => ?_, fun n col at_n stays => ?_⟩
      · by_cases listed : col ∈ listColumns s.tableKey
        · obtain ⟨n, at_n⟩ := List.mem_iff_getElem?.mp
            ((@mem_make_lists listColumns observers ⟨k, col⟩).mpr ⟨s, observer, listed⟩)
          rw [(changes k s observer col).1 n at_n, unmodified s mem gone, told_none]
        · rw [(changes k s observer col).2 listed, unmodified s mem gone]
      · rw [(changes k s observer col).2 out]
        exact find s mem col info
      · obtain ⟨rows, values, follows, reported, unset, touches⟩ :=
          followed n k col s at_n observer stays
        rw [(changes k s observer col).1 n at_n]
        exact ⟨rows, values, reported,
          tells follows unset fun some => modified s mem col (touches some)⟩

/-- A row of the list of one observed object is moved and the other object is removed. -/
theorem observers_told_moves :
    let listColumns : ℕ → List ℤ := fun t => if t = 3 then [7] else []
    let observers : List ObserverState := [⟨3, 5, 1⟩, ⟨3, 6, 2⟩]
    let log : List Instruction :=
      [.selectTable 3, .selectList 7 5, .listMove 0 2, .set 9 5, .removeObject 6]
    let old : ℕ → ℤ → ℤ → List ℕ := fun _ _ _ => [0, 1, 2]
    let es : ℕ → ℤ → ℤ → List (Edit ℕ) := fun _ _ _ => [.move 0 2]
    let objs (t : ℕ) := exec Objects.apply (.reported fun key => key = 5 ∨ key = 6)
      (inTable t none log)
    ∃ o a, execM TransactLogObserver.observe (make listColumns observers).changeInfo log = .ok o ∧
      (make listColumns observers).before true o.parseComplete = .ok a ∧
      (∃ gone : List ObserverState, a.invalidated = gone.map ObserverState.info ∧
        gone.Sublist observers ∧ ∀ s ∈ observers, s ∈ gone ↔ Goes log (objs s.tableKey) s) ∧
      ∀ k s, observers[k]? = some s →
        (¬ (objs s.tableKey).Stayed s.objKey → ∀ col, (a.changes k).find col = none) ∧
        (∀ col, col ∉ listColumns s.tableKey → ∀ info, (a.changes k).find col = some info ↔
          info = { kind := .set } ∧ (objs s.tableKey).Touched s.objKey col) ∧
        ∀ n col, (make listColumns observers).lists[n]? = some ⟨k, col⟩ →
          (objs s.tableKey).Stayed s.objKey → ∃ rows,
            rows.map Row.value =
              exec Edit.values (old s.tableKey s.objKey col) (es s.tableKey s.objKey col) ∧
            Reports (o.parseComplete.builders n).finalize (old s.tableKey s.objKey col) rows ∧
            Tells ((a.changes k).find col) (o.parseComplete.builders n).finalize
              (old s.tableKey s.objKey col) (rows.map Row.value) := by
  intro listColumns observers log old es objs
  have here (s : ObserverState) (mem : s ∈ observers) : s = ⟨3, 5, 1⟩ ∨ s = ⟨3, 6, 2⟩ :=
    List.mem_pair.mp mem
  have removed : Instruction.removeObject 6 ∈ inTable 3 none log := by decide
  have columns (t : ℕ) : (listColumns t).Nodup := by
    show (if t = 3 then [7] else []).Nodup
    split_ifs <;> simp
  have allowed : ∀ s ∈ observers, AllSteps Objects.apply Objects.Allowed
      (.reported fun key => key = 5 ∨ key = 6) (inTable s.tableKey none log) := by
    intro s mem
    rcases here s mem with rfl | rfl <;>
      simp [log, inTable, Scope.after, Instruction.level, AllSteps, Objects.Allowed, Objects.apply,
        Objects.reported, Function.update]
  have all : ∀ s ∈ observers, (objs s.tableKey).Stayed s.objKey ∨ Goes log (objs s.tableKey) s := by
    intro s mem
    rcases here s mem with rfl | rfl
    · left
      simp [objs, log, inTable, Scope.after, Instruction.level, Objects.Stayed, Objects.apply,
        Objects.reported, Function.update]
    · refine .inr ⟨?_, fun _ => ?_⟩ <;>
        simp [objs, log, inTable, Scope.after, Instruction.level, Objects.Stayed, Objects.apply,
          Objects.reported, Function.update]
  obtain ⟨o, run, stops, tells⟩ := @observers_told ℕ listColumns observers log true
    (by unfold Distinct; decide) columns (by simp [log, Supported]) (by decide)
    (fun s mem col listed => by
      rcases here s mem with rfl | rfl <;>
      · obtain rfl : col = 7 := List.mem_singleton.mp listed
        decide) old es
    (fun s mem stays col listed => by
      rcases here s mem with rfl | rfl
      · obtain rfl : col = 7 := List.mem_singleton.mp listed
        refine ⟨?_, rfl⟩
        show AllSteps Edit.values (fun l e => e.Allowed l.length) [0, 1, 2] [.move 0 2]
        simp only [AllSteps]
        decide
      · exact absurd rfl (stays _ removed).1)
    (fun _ key => key = 5 ∨ key = 6) _
    (fun s mem => by rcases here s mem with rfl | rfl <;> decide) allowed
  obtain ⟨a, ok⟩ := stops.mpr fun _ n k col s _ observer _ => all s (List.mem_of_getElem? observer)
  exact ⟨o, a, run, ok, tells a ok⟩

end Report

end SpecialtyMap.Notify
